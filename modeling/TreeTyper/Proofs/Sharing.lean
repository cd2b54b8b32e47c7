import TreeTyper.Api.Standard
import TreeTyper.Proofs.Resolution
import TreeTyper.Tree.Build

/-!
# Who shares a signature

With no class declared twice the class tree of a module is that of its tables.  The
entry of a method is that of its nearest ancestor that writes it, and its cell comes
down the tree as long as each class on the way keeps it: two classes share a cell if,
and only if, they obtain it from one class, and what is written through one of them is
seen through those that share it, and through no other.

    Resolved s m.classes → s.hierarchy.base? = m.base?                      (Resolved.base?_eq)
    Resolved s m.classes → s.hierarchy.method? c f = some e →
      ∃ a, Obtains m s f c a ∧ Owns m s a f e.cell           (Resolved.obtains, Resolved.owns)
-/

namespace TreeTyper

/-! ## Classes of a module -/

namespace Tree

/-- The classes of a module that are no exceptions, in source order. -/
def Module.classes (m : Module) : List ClassDef := classesFrom [Ty.exceptionName] m.body

/-- The class of a name. -/
def Module.class? (m : Module) (name : String) : Option ClassDef :=
  m.classes.find? (·.name == name)

def Module.base? (m : Module) (name : String) : Option String := (m.class? name).bind (·.baseName?)

/-- The number of parameters of a method, if it is written in a class of the given name. -/
def Module.arity? (m : Module) (name method : String) : Option Nat :=
  (m.class? name).bind (·.arity? method)

/-- A class whose base has a cell with some number of parameters keeps it: it does not write the
method, or writes it, no constructor, with this number. -/
def Module.KeepsCell (m : Module) (name method : String) (arity : Nat) : Prop :=
  ∀ n ∈ m.arity? name method, method ≠ Hierarchy.constructorName ∧ arity = n

variable {m : Module} {name : String} {d : ClassDef}

theorem Module.mem_of_class? (found : m.class? name = some d) : d ∈ m.classes ∧ d.name = name := by
  refine ⟨List.mem_of_find?_eq_some found, ?_⟩
  simpa using List.find?_some found

end Tree

namespace Translate

open Hierarchy (Leads)

/-- Where a class has the cell of a method from.  A class that writes the method and does not keep
the cell of its base has it from itself, and one that keeps the cell of its base from where the base
has it. -/
inductive Obtains (m : Tree.Module) (s : State) (f : String) : String → String → Prop
  | own {c} : (m.arity? c f).isSome →
      (∀ b above, m.base? c = some b → s.hierarchy.method? b f = some above →
        ¬m.KeepsCell c f (s.cells.get above.cell).params.length) →
      Obtains m s f c c
  | keep {c b a above} : m.base? c = some b → s.hierarchy.method? b f = some above →
      m.KeepsCell c f (s.cells.get above.cell).params.length → Obtains m s f b a →
      Obtains m s f c a

/-- A class of the module has a cell of its own for a method. -/
def Owns (m : Tree.Module) (s : State) (c f : String) (cell : CellId) : Prop :=
  ∃ d, m.class? c = some d ∧ OwnsCell s d f cell

/-- No function has a cell, and only the classes below one class have it, for one method. -/
def BelongsBelow (s : State) (c f : String) (cell : CellId) : Prop :=
  (∀ name, s.definitions.functions.find? name ≠ some cell) ∧
    ∀ c' f' entry, s.hierarchy.method? c' f' = some entry → entry.cell = cell →
      f' = f ∧ c ∈ s.hierarchy.ancestors c'

variable {m : Tree.Module} {s : State} {a a' b c c' f f' : String} {cell : CellId}
  {entry above : MethodEntry}

theorem takesCell_iff_keeps {d : Tree.ClassDef} (found : m.class? c = some d) :
    TakesCell s d f above ↔ ∃ b, m.base? c = some b ∧ s.hierarchy.method? b f = some above ∧
      m.KeepsCell c f (s.cells.get above.cell).params.length := by
  have base : m.base? c = d.baseName? := by
    rw [Tree.Module.base?, found, Option.bind_some]
  have arity : m.arity? c f = d.arity? f := by
    rw [Tree.Module.arity?, found, Option.bind_some]
  rw [TakesCell, Tree.Module.KeepsCell, base, arity, Option.bind_eq_some_iff]
  constructor
  · rintro ⟨⟨b, based, inherits⟩, keeps⟩
    exact ⟨b, based, inherits, keeps⟩
  · rintro ⟨b, based, inherits, keeps⟩
    exact ⟨⟨b, based, inherits⟩, keeps⟩

namespace Resolved

variable (resolved : Resolved s m.classes)

include resolved

theorem isClass_iff : s.hierarchy.isClass c ↔ ∃ d, m.class? c = some d := by
  rw [resolved.isClass]
  constructor
  · rintro ⟨d, known, rfl⟩
    refine Option.isSome_iff_exists.mp (List.find?_isSome.mpr ⟨d, known, ?_⟩)
    exact beq_self_eq_true _
  · rintro ⟨d, found⟩
    exact ⟨d, Tree.Module.mem_of_class? found⟩

theorem of_class? {d : Tree.ClassDef} (found : m.class? c = some d) :
    d.name = c ∧ ResolvesClass s d := by
  obtain ⟨known, same⟩ := Tree.Module.mem_of_class? found
  exact ⟨same, resolved.each d known⟩

theorem base?_eq : s.hierarchy.base? = m.base? := by
  funext c
  cases found : m.class? c with
  | some d =>
    obtain ⟨rfl, resolves⟩ := resolved.of_class? found
    rw [resolves.base, Tree.Module.base?, found, Option.bind_some]
  | none =>
    rw [Tree.Module.base?, found, Option.bind_none]
    refine Hierarchy.base?_of_not_isClass fun isClass => ?_
    obtain ⟨d, found'⟩ := resolved.isClass_iff.mp isClass
    rw [found] at found'
    cases found'

theorem method?_of_arity? {n : Nat} (written : m.arity? c f = some n) : ∃ cell,
    s.hierarchy.method? c f = some ⟨cell, c⟩ ∧ (s.cells.get cell).params.length = n := by
  obtain ⟨d, found, writes⟩ := Option.bind_eq_some_iff.mp written
  obtain ⟨rfl, resolves⟩ := resolved.of_class? found
  exact resolves.writes f n writes

/-- A class that does not write a method has the entry of its base. -/
theorem method?_of_unwritten (unwritten : m.arity? c f = none) :
    s.hierarchy.method? c f = (m.base? c).bind (s.hierarchy.method? · f) := by
  cases found : m.class? c with
  | some d =>
    obtain ⟨rfl, resolves⟩ := resolved.of_class? found
    rw [Tree.Module.arity?, found, Option.bind_some] at unwritten
    rw [resolves.inherits f unwritten, Tree.Module.base?, found, Option.bind_some]
  | none =>
    rw [Tree.Module.base?, found, Option.bind_none, Option.bind_none, Option.eq_none_iff_forall_ne_some]
    intro entry seen
    obtain ⟨info, known, -⟩ := Option.bind_eq_some_iff.mp seen
    have isClass : s.hierarchy.isClass c := by
      rw [Hierarchy.isClass, Table.contains, known]
      rfl
    obtain ⟨d, found'⟩ := resolved.isClass_iff.mp isClass
    rw [found] at found'
    cases found'

/-- The nearest class that writes a method is the one in which it is defined. -/
theorem definedIn_eq (c f : String) : (s.hierarchy.method? c f).map (·.definedIn) =
    (s.hierarchy.ancestors c).find? fun a => (m.arity? a f).isSome := by
  induction c using resolved.acyclic.induction with
  | step c ih =>
    rw [resolved.acyclic.ancestors_eq]
    cases written : m.arity? c f with
    | some n =>
      obtain ⟨cell, entry, -⟩ := resolved.method?_of_arity? written
      rw [entry, List.find?_cons_of_pos (by rw [written]; rfl)]
      rfl
    | none =>
      rw [resolved.method?_of_unwritten written, List.find?_cons_of_neg (by rw [written]; simp),
        resolved.base?_eq]
      cases based : m.base? c with
      | none => rfl
      | some b =>
        rw [← resolved.base?_eq] at based
        exact ih b based

/-- The cell of an entry has as many parameters as the method has where it is defined. -/
theorem arity_eq (seen : s.hierarchy.method? c f = some entry) :
    m.arity? entry.definedIn f = some (s.cells.get entry.cell).params.length := by
  induction c using resolved.acyclic.induction generalizing entry with
  | step c ih =>
    cases written : m.arity? c f with
    | some n =>
      obtain ⟨cell, seen', arity⟩ := resolved.method?_of_arity? written
      rw [seen] at seen'
      cases seen'
      rw [written, arity]
    | none =>
      rw [resolved.method?_of_unwritten written] at seen
      obtain ⟨b, based, seen⟩ := Option.bind_eq_some_iff.mp seen
      rw [← resolved.base?_eq] at based
      exact ih b based seen

/-- A class that keeps the cell of its base has it. -/
theorem cell_eq (based : m.base? c = some b) (inherited : s.hierarchy.method? b f = some above)
    (keeps : m.KeepsCell c f (s.cells.get above.cell).params.length)
    (seen : s.hierarchy.method? c f = some entry) : entry.cell = above.cell := by
  obtain ⟨d, found, -⟩ := Option.bind_eq_some_iff.mp based
  obtain ⟨rfl, resolves⟩ := resolved.of_class? found
  exact resolves.takes f entry above seen ((takesCell_iff_keeps found).mpr ⟨b, based, inherited, keeps⟩)

/-- What a base sees is seen below. -/
theorem seen_of_base (based : m.base? c = some b)
    (inherited : s.hierarchy.method? b f = some above) :
    ∃ entry, s.hierarchy.method? c f = some entry := by
  cases written : m.arity? c f with
  | some n =>
    obtain ⟨cell, seen, -⟩ := resolved.method?_of_arity? written
    exact ⟨_, seen⟩
  | none =>
    rw [resolved.method?_of_unwritten written, based]
    exact ⟨above, inherited⟩

/-! ## Origins -/

theorem obtains (seen : s.hierarchy.method? c f = some entry) : ∃ a, Obtains m s f c a := by
  induction c using resolved.acyclic.induction generalizing entry with
  | step c ih =>
    by_cases keeps : ∃ b above, m.base? c = some b ∧ s.hierarchy.method? b f = some above ∧
        m.KeepsCell c f (s.cells.get above.cell).params.length
    · obtain ⟨b, above, based, inherited, keeps⟩ := keeps
      obtain ⟨a, obtains⟩ := ih b (resolved.base?_eq ▸ based) inherited
      exact ⟨a, .keep based inherited keeps obtains⟩
    · refine ⟨c, .own ?_ fun b above based inherited kept =>
        keeps ⟨b, above, based, inherited, kept⟩⟩
      cases written : m.arity? c f with
      | some n => rfl
      | none =>
        rw [resolved.method?_of_unwritten written] at seen
        obtain ⟨b, based, inherited⟩ := Option.bind_eq_some_iff.mp seen
        refine absurd ⟨b, entry, based, inherited, fun n writes => ?_⟩ keeps
        rw [written] at writes
        cases writes

/-- The class from which a cell is obtained owns it. -/
theorem owns (obtains : Obtains m s f c a) (seen : s.hierarchy.method? c f = some entry) :
    Owns m s a f entry.cell := by
  induction obtains generalizing entry with
  | @own c written alone =>
    obtain ⟨n, written⟩ := Option.isSome_iff_exists.mp written
    obtain ⟨d, found, -⟩ := Option.bind_eq_some_iff.mp written
    obtain ⟨cell, seen', -⟩ := resolved.method?_of_arity? written
    rw [seen] at seen'
    cases seen'
    refine ⟨d, found, ?_, fun inherited takes => ?_⟩
    · rw [(resolved.of_class? found).1]
      exact seen
    · obtain ⟨b, based, inherits, keeps⟩ := (takesCell_iff_keeps found).mp takes
      exact alone b inherited based inherits keeps
  | keep based inherited keeps _ ih =>
    rw [resolved.cell_eq based inherited keeps seen]
    exact ih inherited

theorem leads (obtains : Obtains m s f c a) : Leads s.hierarchy.base? c a := by
  induction obtains with
  | own _ _ => exact .refl
  | keep based _ _ _ ih => exact .head (resolved.base?_eq ▸ based) ih

theorem owner_unique (owns : Owns m s a f cell) (owns' : Owns m s a' f' cell) : a = a' := by
  obtain ⟨d, found, owns⟩ := owns
  obtain ⟨d', found', owns'⟩ := owns'
  obtain ⟨known, rfl⟩ := Tree.Module.mem_of_class? found
  obtain ⟨known', rfl⟩ := Tree.Module.mem_of_class? found'
  exact resolved.owners d known d' known' f f' cell owns owns'

theorem method_unique {entry' : MethodEntry} (seen : s.hierarchy.method? c f = some entry)
    (seen' : s.hierarchy.method? c' f' = some entry') (same : entry.cell = entry'.cell) :
    f = f' := by
  have links' := State.links_of_method? seen'
  rw [← same] at links'
  rcases resolved.linked.alike (State.links_of_method? seen) links' with same | ⟨_, _, _, one, two⟩
  · exact (DefKey.method.inj same).2
  · exact (DefKey.method.inj one).2.trans (DefKey.method.inj two).2.symm

/-- Entries have one cell if they are for one method and come from one class. -/
theorem shared_iff {entry' : MethodEntry} (seen : s.hierarchy.method? c f = some entry)
    (seen' : s.hierarchy.method? c' f' = some entry') :
    entry.cell = entry'.cell ↔ f = f' ∧ ∃ a, Obtains m s f c a ∧ Obtains m s f c' a := by
  constructor
  · intro same
    obtain rfl := resolved.method_unique seen seen' same
    obtain ⟨a, obtains⟩ := resolved.obtains seen
    obtain ⟨a', obtains'⟩ := resolved.obtains seen'
    have owns := resolved.owns obtains seen
    rw [same] at owns
    obtain rfl := resolved.owner_unique owns (resolved.owns obtains' seen')
    exact ⟨rfl, a, obtains, obtains'⟩
  · rintro ⟨rfl, a, obtains, obtains'⟩
    obtain ⟨d, found, owns, -⟩ := resolved.owns obtains seen
    obtain ⟨d', found', owns', -⟩ := resolved.owns obtains' seen'
    rw [found] at found'
    cases found'
    rw [owns] at owns'
    exact (MethodEntry.mk.inj (Option.some.inj owns')).1

/-- A class has the cell of its base exactly if it keeps it. -/
theorem cell_eq_iff (based : m.base? c = some b)
    (inherited : s.hierarchy.method? b f = some above)
    (seen : s.hierarchy.method? c f = some entry) :
    entry.cell = above.cell ↔ m.KeepsCell c f (s.cells.get above.cell).params.length := by
  refine ⟨fun same => ?_, fun keeps => resolved.cell_eq based inherited keeps seen⟩
  obtain ⟨-, a, obtains, obtains'⟩ := (resolved.shared_iff seen inherited).mp same
  cases obtains with
  | own _ _ =>
    -- the class would come from below itself
    exact absurd (resolved.leads obtains') (resolved.acyclic _ _ (resolved.base?_eq ▸ based))
  | keep based' inherited' keeps _ =>
    rw [based] at based'
    cases based'
    rw [inherited] at inherited'
    cases inherited'
    exact keeps

/-- A cell that a class does not have from its base belongs to it and to the classes below it. -/
theorem belongsBelow (seen : s.hierarchy.method? c f = some entry)
    (fresh : ∀ b above, m.base? c = some b → s.hierarchy.method? b f = some above →
      entry.cell ≠ above.cell) : BelongsBelow s c f entry.cell := by
  refine ⟨fun name known => ?_, fun c' f' entry' seen' same => ?_⟩
  · have alike : Alike (.function name) (.method entry.definedIn f) :=
      resolved.linked.alike known (State.links_of_method? seen)
    rcases alike with same | ⟨_, _, _, isMethod, -⟩
    · cases same
    · cases isMethod
  · obtain ⟨rfl, a, obtains', obtains⟩ := (resolved.shared_iff seen' seen).mp same
    refine ⟨rfl, Hierarchy.mem_ancestors_iff.mpr ?_⟩
    cases obtains with
    | own _ _ => exact resolved.leads obtains'
    | keep based inherited keeps _ =>
      exact absurd (resolved.cell_eq based inherited keeps seen) (fresh _ _ based inherited)

end Resolved

/-- Two classes have the cell of a method from one class. -/
def SharesCell (m : Tree.Module) (s : State) (f c c' : String) : Prop :=
  ∃ a, Obtains m s f c a ∧ Obtains m s f c' a

/-- Methods and their cells come down the class tree of a module. -/
structure FollowsTree (m : Tree.Module) (s : State) : Prop where
  bases : s.hierarchy.base? = m.base?
  ancestors : ∀ c, s.hierarchy.ancestors c = c :: ((m.base? c).map s.hierarchy.ancestors).getD []
  /-- A method is that of the nearest class that writes it, if there is one. -/
  definedIn : ∀ c f, (s.hierarchy.method? c f).map (·.definedIn) =
    (s.hierarchy.ancestors c).find? fun a => (m.arity? a f).isSome
  arity : ∀ c f entry, s.hierarchy.method? c f = some entry →
    m.arity? entry.definedIn f = some (s.cells.get entry.cell).params.length
  /-- What a base sees is seen below, with the cell of the base or another. -/
  inherits : ∀ c b f above, m.base? c = some b → s.hierarchy.method? b f = some above →
    ∃ entry, s.hierarchy.method? c f = some entry ∧
      (entry.cell = above.cell ↔ m.KeepsCell c f (s.cells.get above.cell).params.length)
  fresh : ∀ c f entry, s.hierarchy.method? c f = some entry →
    (∀ b above, m.base? c = some b → s.hierarchy.method? b f = some above →
      ¬m.KeepsCell c f (s.cells.get above.cell).params.length) → BelongsBelow s c f entry.cell
  shared : ∀ c c' f f' entry entry', s.hierarchy.method? c f = some entry →
    s.hierarchy.method? c' f' = some entry' →
    (entry.cell = entry'.cell ↔ f = f' ∧ SharesCell m s f c c')

theorem Resolved.followsTree (resolved : Resolved s m.classes) : FollowsTree m s where
  bases := resolved.base?_eq
  ancestors c := by
    rw [← resolved.base?_eq]
    exact resolved.acyclic.ancestors_eq c
  definedIn := resolved.definedIn_eq
  arity _ _ _ seen := resolved.arity_eq seen
  inherits c b f above based inherited := by
    obtain ⟨entry, seen⟩ := resolved.seen_of_base based inherited
    exact ⟨entry, seen, resolved.cell_eq_iff based inherited seen⟩
  fresh c f entry seen keepsNone := resolved.belongsBelow seen fun b above based inherited same =>
    keepsNone b above based inherited ((resolved.cell_eq_iff based inherited seen).mp same)
  shared _ _ _ _ _ _ seen seen' := resolved.shared_iff seen seen'

end Translate

/-! ## Top theorem -/

open Translate in
/-- After the pass over the top level of a module that declares no class twice, methods and their
cells come down the class tree; what a class sees stays so, and a signature that is written through
it is seen through the classes that have the cell from where it has it, while all others see what
they saw. -/
theorem signatures_follow_class_tree {api : ApiTables} {m : Tree.Module} {o : Outline}
    {start : State} (outlined : (outline api m).run .empty = (.ok o, start))
    (distinct : (m.classes.map (·.name)).Nodup) :
    FollowsTree m start ∧
    (∀ s, Later api o start s → ∀ c f, s.hierarchy.method? c f = start.hierarchy.method? c f) ∧
    ∀ s : State, start.cells.contents.length ≤ s.cells.contents.length →
      ∀ c c' f f' entry entry' signature, start.hierarchy.method? c f = some entry →
      start.hierarchy.method? c' f' = some entry' →
      let written := ((setSignature entry.cell signature).run s).2
      (f = f' ∧ SharesCell m start f c c' → written.cells.get entry'.cell = signature) ∧
      (¬(f = f' ∧ SharesCell m start f c c') →
        written.cells.get entry'.cell = s.cells.get entry'.cell) := by
  have resolved : Resolved start m.classes :=
    ((outlineFrom_runs m.body).of_ok outlined).resolved knowsExceptions_empty .empty distinct
  have follows := resolved.followsTree
  refine ⟨follows, fun s later c f => later.ownersGrow.shape.method?_eq c f, ?_⟩
  intro s more c c' f f' entry entry' signature seen seen'
  have made := Nat.lt_of_lt_of_le (resolved.linked.made (State.links_of_method? seen)) more
  have shared := follows.shared c c' f f' entry entry' seen seen'
  have written : ((setSignature entry.cell signature).run s).2.cells =
      s.cells.set entry.cell signature := rfl
  refine ⟨fun both => ?_, fun apart => ?_⟩
  · rw [written, ← shared.mpr both]
    exact Cells.get_set_self made signature
  · rw [written]
    exact Cells.get_set_of_ne (fun same => apart (shared.mp same.symm)) ..

open Tree.Build in
/-- A method that is kept, inherited and written with more parameters, and two constructors. -/
def figures : Tree.Module :=
  ⟨[classDef "Shape" none [define "__init__" ["self", "name"] [pass],
      define "area" ["self", "unit"] [pass]],
    classDef "Square" (some "Shape") [define "area" ["self", "unit"] [pass]],
    classDef "Cube" (some "Square") [define "area" ["self", "unit", "depth"] [pass]],
    classDef "Disc" (some "Shape") [define "__init__" ["self", "name"] [pass]]]⟩

open Translate in
/-- What the classes of `figures` see. -/
def figuresSeen : Bool :=
  passes (outline ApiTables.standard figures) .empty fun _ start => decide <|
    start.hierarchy.method? "Square" "area" = some ⟨1, "Square"⟩ ∧
    start.hierarchy.method? "Disc" "area" = some ⟨1, "Shape"⟩ ∧
    start.hierarchy.method? "Cube" "area" = some ⟨2, "Cube"⟩ ∧
    start.hierarchy.method? "Shape" "__init__" = some ⟨0, "Shape"⟩ ∧
    start.hierarchy.method? "Disc" "__init__" = some ⟨3, "Disc"⟩

open Translate in
set_option maxRecDepth 100000 in
theorem signatures_follow_figures : ∃ o start,
    (outline ApiTables.standard figures).run .empty = (.ok o, start) ∧
    (figures.classes.map (·.name)).Nodup ∧ FollowsTree figures start ∧
    SharesCell figures start "area" "Square" "Disc" ∧
    ¬SharesCell figures start "area" "Square" "Cube" ∧
    ¬SharesCell figures start "__init__" "Shape" "Disc" ∧
    BelongsBelow start "Cube" "area" 2 := by
  have checked : figuresSeen = true := by
    decide +kernel
  obtain ⟨o, start, outlined, seen⟩ := exists_of_passes checked
  obtain ⟨square, disc, cube, shape, discInit⟩ := of_decide_eq_true seen
  have distinct : (figures.classes.map (·.name)).Nodup := by
    decide +kernel
  have follows := (signatures_follow_class_tree outlined distinct).1
  have apart : ∀ {f c c' cell cell' a a'}, start.hierarchy.method? c f = some ⟨cell, a⟩ →
      start.hierarchy.method? c' f = some ⟨cell', a'⟩ → cell ≠ cell' →
      ¬SharesCell figures start f c c' := fun seen seen' differ shares =>
    differ ((follows.shared _ _ _ _ _ _ seen seen').mpr ⟨rfl, shares⟩)
  refine ⟨o, start, outlined, distinct, follows,
    ((follows.shared _ _ _ _ _ _ square disc).mp rfl).2, apart square cube (by decide),
    apart shape discInit (by decide), follows.fresh _ _ _ cube fun b above based inherited => ?_⟩
  have written : figures.arity? "Cube" "area" = some 2 := by
    decide +kernel
  have base : figures.base? "Cube" = some "Square" := by
    decide +kernel
  rw [base] at based
  cases based
  rw [square] at inherited
  cases inherited
  have arity := follows.arity _ _ _ square
  have squareArity : figures.arity? "Square" "area" = some 1 := by
    decide +kernel
  rw [squareArity] at arity
  intro keeps
  have same := (keeps 2 written).2
  rw [← Option.some.inj arity] at same
  cases same

end TreeTyper
