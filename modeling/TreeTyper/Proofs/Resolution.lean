import TreeTyper.Proofs.Emitted
import TreeTyper.Proofs.Forest
import TreeTyper.Proofs.Links

/-!
# Methods follow the class tree

A class sees the methods of its base until it writes its own, which keeps the cell of
the base's entry only under the same number of parameters.  In a module that declares
no class twice the tables copied at each declaration come to this: a class has the
entry of its nearest ancestor that writes the method, and two entries have one cell
exactly if a chain of inherited and fitting methods leads from both to one class.

    Members c s d.body s' → Writes c d.body s s'                          (Members.writes)
    s₀ after the outline → (methods of m) resolved in s₀                  (OutlinesAll.resolved)
-/

namespace TreeTyper

/-! ## Classes of the source -/

namespace Tree

/-- The class that a statement declares, if it is no exception. -/
def Stmt.class? (exceptions : List String) (s : Stmt) : Option ClassDef :=
  s.classDef?.filter fun d => ¬d.IsException exceptions

def classesFrom (exceptions : List String) : List Stmt → List ClassDef
  | [] => []
  | s :: rest => (s.class? exceptions).toList ++ classesFrom (s.exceptions exceptions) rest

/-- The number of parameters besides `self`. -/
def FunctionDef.arity (d : FunctionDef) : Nat := d.args.args.length - 1

/-- The number of parameters that a class gives to a method that is written in it. -/
def ClassDef.arity? (d : ClassDef) (method : String) : Option Nat :=
  (d.methods.find? (·.name == method)).map (·.arity)

end Tree

namespace Translate

open TreeTyper.Tree (memberNames)

variable {s s' s'' : State} {o o' : Outline} {className : String} {body stmts : List Tree.Stmt}
  {stmt : Tree.Stmt} {d : Tree.ClassDef} {f : String} {cell : CellId}

/-! ## The members of one class -/

/-- The entry that a class has for a method fits a number of parameters, so that a method written in
it keeps the cell. -/
def SuitsCell (s : State) (className f : String) (arity : Nat) (cell : CellId) : Prop :=
  f ≠ Hierarchy.constructorName ∧ (s.cells.get cell).params.length = arity ∧
    ∃ owner, s.hierarchy.method? className f = some ⟨cell, owner⟩

/-- What the members of a class leave: each method has an entry with the cell that fits it, or with a
new one. -/
structure Writes (className : String) (body : List Tree.Stmt) (s s' : State) : Prop where
  made : s.cells.contents.length ≤ s'.cells.contents.length
  kept : ∀ cell < s.cells.contents.length, s'.cells.get cell = s.cells.get cell
  others : ∀ c f, ¬(c = className ∧ f ∈ memberNames body) →
    s'.hierarchy.method? c f = s.hierarchy.method? c f
  entries : ∀ d ∈ body.filterMap Tree.Stmt.functionDef?, ∃ cell,
    s'.hierarchy.method? className d.name = some ⟨cell, className⟩ ∧
    (s'.cells.get cell).params.length = d.arity ∧
    (SuitsCell s className d.name d.arity cell ∨
      s.cells.contents.length ≤ cell ∧ ∀ inherited, ¬SuitsCell s className d.name d.arity inherited)

theorem get_alloc_of_lt {cells : Cells} {signature : Signature}
    (made : cell < cells.contents.length) : (cells.alloc signature).1.get cell = cells.get cell := by
  simp [Cells.get, Cells.written, Cells.alloc, List.getD_eq_getElem?_getD,
    List.getElem?_append_left made]

/-- One method is entered with the inherited cell, if it fits, or with a new one. -/
theorem writes_declareMethod {d : Tree.FunctionDef} {hierarchy : Hierarchy} {cells : Cells} :
    s.hierarchy.declareMethod s.cells className d.name d.arity = some (hierarchy, cells, cell) →
    s.cells.contents.length ≤ cells.contents.length ∧
    (∀ c < s.cells.contents.length, cells.get c = s.cells.get c) ∧
    (cells.get cell).params.length = d.arity ∧
    (SuitsCell s className d.name d.arity cell ∨
      s.cells.contents.length ≤ cell ∧
        ∀ inherited, ¬SuitsCell s className d.name d.arity inherited) := by
  intro declared
  obtain ⟨info, found, declared⟩ := Option.bind_eq_some_iff.mp declared
  extract_lets inherited at declared
  split at declared
  next cells₁ cell₁ chosen =>
  extract_lets at declared
  cases declared
  have sees : s.hierarchy.method? className d.name = info.methods.find? d.name := by
    rw [Hierarchy.method?, found]
    rfl
  -- the cell of an inherited method is shared if it suits, else a new one is made
  cases shared : inherited with
  | some entry =>
    rw [shared] at chosen
    cases chosen
    obtain ⟨known, fits⟩ := Option.filter_eq_some_iff.mp shared
    simp only [Bool.and_eq_true, decide_eq_true_eq] at fits
    refine ⟨Nat.le_refl _, fun _ _ => rfl, fits.2, .inl ⟨fits.1, fits.2, entry.definedIn, ?_⟩⟩
    rw [sees, known]
  | none =>
    rw [shared] at chosen
    cases chosen
    refine ⟨?_, fun c made => get_alloc_of_lt made, ?_, .inr ⟨Nat.le_refl _, ?_⟩⟩
    · simp
    · have content := Cells.get_alloc_self s.cells (Signature.placeholder d.arity)
      have arity : (Signature.placeholder d.arity).params.length = d.arity :=
        List.length_replicate
      exact (congrArg (·.params.length) content).trans arity
    · rintro cell ⟨notConstructor, arity, owner, entry⟩
      rw [sees] at entry
      have filtered := Option.filter_eq_none_iff.mp shared ⟨cell, owner⟩ entry
      simp [notConstructor, arity] at filtered

/-- Whether an entry fits depends on the entry and on the cells that were made with it. -/
theorem suitsCell_congr {n : Nat} (linked : s.Linked)
    (entry : s'.hierarchy.method? className f = s.hierarchy.method? className f)
    (kept : ∀ c < s.cells.contents.length, s'.cells.get c = s.cells.get c) :
    SuitsCell s' className f n cell ↔ SuitsCell s className f n cell := by
  unfold SuitsCell
  rw [entry]
  have same : ∀ owner, s.hierarchy.method? className f = some ⟨cell, owner⟩ →
      s'.cells.get cell = s.cells.get cell := fun owner found =>
    kept cell (linked.made (State.links_of_method? found))
  constructor
  · rintro ⟨notConstructor, arity, owner, found⟩
    exact ⟨notConstructor, same owner found ▸ arity, owner, found⟩
  · rintro ⟨notConstructor, arity, owner, found⟩
    exact ⟨notConstructor, (same owner found).symm ▸ arity, owner, found⟩

theorem Members.writes (run : Members className s body s') (linked : s.Linked)
    (distinct : (memberNames body).Nodup) : Writes className body s s' := by
  induction run with
  | nil => exact ⟨Nat.le_refl _, fun _ _ => rfl, fun _ _ _ => rfl, by simp⟩
  | pass _ ih =>
    have later := ih linked distinct
    exact ⟨later.made, later.kept, later.others, later.entries⟩
  | @method s s' d pos rest hierarchy cells cell _ _ declared _ ih =>
    have names : memberNames (⟨.functionDef d, pos⟩ :: rest) = d.name :: memberNames rest := rfl
    rw [names, List.nodup_cons] at distinct
    have later := ih (linked.declareMethod declared) distinct.2
    obtain ⟨made, kept, arity, chosen⟩ := writes_declareMethod declared
    have method? := method?_declareMethod declared
    refine ⟨Nat.le_trans made later.made, fun c hc => ?_, fun c f apart => ?_, ?_⟩
    · exact (later.kept c (Nat.lt_of_lt_of_le hc made)).trans (kept c hc)
    · rw [names, List.mem_cons] at apart
      rw [later.others c f fun both => apart ⟨both.1, .inr both.2⟩]
      exact (method? c f).trans (if_neg fun both => apart ⟨both.1, .inl both.2⟩)
    have functions : (⟨.functionDef d, pos⟩ :: rest : List Tree.Stmt).filterMap
        Tree.Stmt.functionDef? = d :: rest.filterMap Tree.Stmt.functionDef? := rfl
    rw [functions, List.forall_mem_cons]
    have entry : s'.hierarchy.method? className d.name = some ⟨cell, className⟩ := by
      rw [later.others className d.name fun both => distinct.1 both.2]
      exact (method? className d.name).trans (if_pos ⟨rfl, rfl⟩)
    have entered : hierarchy.method? className d.name = some ⟨cell, className⟩ :=
      (method? className d.name).trans (if_pos ⟨rfl, rfl⟩)
    have cellMade := (linked.declareMethod declared).made (State.links_of_method? entered)
    refine ⟨⟨cell, entry, ?_, chosen⟩, fun e he => ?_⟩
    · rw [later.kept cell cellMade]
      exact arity
    -- a later method has another name, so what suits it was not touched here
    · have other : e.name ≠ d.name := by
        intro same
        refine distinct.1 ?_
        rw [← same, ← map_name_methods]
        exact List.mem_map_of_mem he
      obtain ⟨cell', entry', arity', chosen'⟩ := later.entries e he
      have same : hierarchy.method? className e.name = s.hierarchy.method? className e.name :=
        (method? className e.name).trans (if_neg fun both => other both.2)
      have fits : ∀ c, SuitsCell { s with
            hierarchy, cells, definitions := s.definitions.declareMethod className d }
          className e.name e.arity c ↔ SuitsCell s className e.name e.arity c :=
        fun c => suitsCell_congr linked same kept
      refine ⟨cell', entry', arity', chosen'.imp (fits _).mp fun isNew => ⟨?_, fun c h => ?_⟩⟩
      · exact Nat.le_trans made isNew.1
      · exact isNew.2 c ((fits c).mpr h)

/-! ## Declarations of classes -/

/-- The base of a declared class is a class. -/
theorem isClass_of_declareClass {h h' : Hierarchy} {name : String} {base : Option String}
    (declared : h.declareClass name base = some h') : ∀ b ∈ base, h.isClass b := by
  intro b based
  obtain ⟨h₁, methods, rfl, ⟨rfl, -, -⟩ | ⟨b', info, rfl, found, -, -⟩⟩ :=
    Hierarchy.declareClass_cases declared
  · cases based
  · cases based
    rw [Hierarchy.isClass, Table.contains, found]
    rfl

/-- A new class sees what its base sees. -/
theorem method?_declareClass_self {h h' : Hierarchy} {name : String} {base : Option String}
    (declared : h.declareClass name base = some h') (f : String) :
    h'.method? name f = base.bind (h.method? · f) := by
  obtain ⟨h₁, methods, rfl, ⟨rfl, -, rfl⟩ | ⟨b, info, rfl, found, rfl, -⟩⟩ :=
    Hierarchy.declareClass_cases declared
  · rw [Hierarchy.method?_withClass, if_pos rfl]
    rfl
  · rw [Hierarchy.method?_withClass, if_pos rfl, Option.bind_some, Hierarchy.method?, found]
    rfl

/-! ## Resolved classes -/

/-- A class takes the cell that its base has for a method: it does not write the method, or writes
it, no constructor, with the number of parameters that the cell has. -/
def TakesCell (s : State) (d : Tree.ClassDef) (f : String) (inherited : MethodEntry) : Prop :=
  d.baseName?.bind (s.hierarchy.method? · f) = some inherited ∧ ∀ n ∈ d.arity? f,
    f ≠ Hierarchy.constructorName ∧ (s.cells.get inherited.cell).params.length = n

/-- The entries of a class are those of its base, but for the methods that are written in it. -/
structure ResolvesClass (s : State) (d : Tree.ClassDef) : Prop where
  base : s.hierarchy.base? d.name = d.baseName?
  inherits : ∀ f, d.arity? f = none →
    s.hierarchy.method? d.name f = d.baseName?.bind (s.hierarchy.method? · f)
  writes : ∀ f n, d.arity? f = some n → ∃ cell,
    s.hierarchy.method? d.name f = some ⟨cell, d.name⟩ ∧ (s.cells.get cell).params.length = n
  takes : ∀ f entry inherited, s.hierarchy.method? d.name f = some entry →
    TakesCell s d f inherited → entry.cell = inherited.cell

/-- A class has a cell of its own for a method. -/
def OwnsCell (s : State) (d : Tree.ClassDef) (f : String) (cell : CellId) : Prop :=
  s.hierarchy.method? d.name f = some ⟨cell, d.name⟩ ∧ ∀ inherited, ¬TakesCell s d f inherited

/-- Some classes are all that are declared, each after its base, and have entries by the tree. -/
structure Resolved (s : State) (classes : List Tree.ClassDef) : Prop where
  linked : s.Linked
  isClass : ∀ c, s.hierarchy.isClass c ↔ ∃ d ∈ classes, d.name = c
  acyclic : Hierarchy.Acyclic s.hierarchy.base?
  bases : ∀ d ∈ classes, ∀ b ∈ d.baseName?, s.hierarchy.isClass b
  each : ∀ d ∈ classes, ResolvesClass s d
  /-- No cell belongs to two classes. -/
  owners : ∀ d ∈ classes, ∀ d' ∈ classes, ∀ f f' cell, OwnsCell s d f cell →
    OwnsCell s d' f' cell → d.name = d'.name

/-- What some classes see stays, and so do the cells that were made. -/
structure Keeps (classes : List Tree.ClassDef) (s s' : State) : Prop where
  base? : ∀ d ∈ classes, s'.hierarchy.base? d.name = s.hierarchy.base? d.name
  method? : ∀ c f, s.hierarchy.isClass c → s'.hierarchy.method? c f = s.hierarchy.method? c f
  cells : ∀ cell < s.cells.contents.length, s'.cells.get cell = s.cells.get cell

namespace Resolved

variable {classes : List Tree.ClassDef} {inherited : MethodEntry}

/-- The entry of the base of a class stays. -/
theorem bind_eq (resolved : Resolved s classes) (keeps : Keeps classes s s') (known : d ∈ classes)
    (f : String) : d.baseName?.bind (s'.hierarchy.method? · f) =
      d.baseName?.bind (s.hierarchy.method? · f) := by
  cases based : d.baseName? with
  | none => rfl
  | some b => exact keeps.method? b f (resolved.bases d known b based)

theorem method?_eq (resolved : Resolved s classes) (keeps : Keeps classes s s')
    (known : d ∈ classes) (f : String) :
    s'.hierarchy.method? d.name f = s.hierarchy.method? d.name f :=
  keeps.method? d.name f ((resolved.isClass d.name).mpr ⟨d, known, rfl⟩)

/-- The entry that a class inherits has a cell that was made. -/
theorem made_of_bind (linked : s.Linked)
    (found : d.baseName?.bind (s.hierarchy.method? · f) = some inherited) :
    inherited.cell < s.cells.contents.length := by
  obtain ⟨b, -, entry⟩ := Option.bind_eq_some_iff.mp found
  exact linked.made (State.links_of_method? entry)

theorem takesCell_iff (resolved : Resolved s classes) (keeps : Keeps classes s s')
    (known : d ∈ classes) : TakesCell s' d f inherited ↔ TakesCell s d f inherited := by
  unfold TakesCell
  rw [resolved.bind_eq keeps known]
  refine and_congr_right fun found => ?_
  rw [keeps.cells _ (made_of_bind resolved.linked found)]

theorem ownsCell_iff (resolved : Resolved s classes) (keeps : Keeps classes s s')
    (known : d ∈ classes) : OwnsCell s' d f cell ↔ OwnsCell s d f cell := by
  unfold OwnsCell
  rw [resolved.method?_eq keeps known]
  exact and_congr_right fun _ => forall_congr' fun inherited =>
    not_congr (resolved.takesCell_iff keeps known)

theorem keep_class (resolved : Resolved s classes) (keeps : Keeps classes s s')
    (known : d ∈ classes) : ResolvesClass s' d := by
  have before := resolved.each d known
  have entries := resolved.method?_eq keeps known
  refine ⟨(keeps.base? d known).trans before.base, fun f unwritten => ?_, fun f n written => ?_,
    fun f entry inherited found takes => ?_⟩
  · rw [entries, resolved.bind_eq keeps known]
    exact before.inherits f unwritten
  · obtain ⟨cell, entry, arity⟩ := before.writes f n written
    refine ⟨cell, (entries f).trans entry, ?_⟩
    rw [keeps.cells cell (resolved.linked.made (State.links_of_method? entry))]
    exact arity
  · rw [entries] at found
    exact before.takes f entry inherited found ((resolved.takesCell_iff keeps known).mp takes)

/-- Tables with the same classes. -/
theorem keep (resolved : Resolved s classes) (linked : s'.Linked)
    (base? : s'.hierarchy.base? = s.hierarchy.base?)
    (isClass : s'.hierarchy.isClass = s.hierarchy.isClass)
    (method? : s'.hierarchy.method? = s.hierarchy.method?)
    (cells : ∀ cell < s.cells.contents.length, s'.cells.get cell = s.cells.get cell) :
    Resolved s' classes := by
  have keeps : Keeps classes s s' := ⟨fun _ _ => by rw [base?], fun _ _ _ => by rw [method?], cells⟩
  refine ⟨linked, ?_, ?_, ?_, fun d known => resolved.keep_class keeps known,
    fun d known d' known' f f' cell owns owns' => ?_⟩
  · rw [isClass]
    exact resolved.isClass
  · rw [base?]
    exact resolved.acyclic
  · rw [isClass]
    exact resolved.bases
  · exact resolved.owners d known d' known' f f' cell ((resolved.ownsCell_iff keeps known).mp owns)
      ((resolved.ownsCell_iff keeps known').mp owns')

/-! ### A new class -/

theorem basesDeclared (resolved : Resolved s classes) : s.hierarchy.BasesDeclared := by
  intro a b above
  obtain ⟨info, found, -⟩ := Option.bind_eq_some_iff.mp above
  have isClass : s.hierarchy.isClass a := by
    rw [Hierarchy.isClass, Table.contains, found]
    rfl
  obtain ⟨d, known, rfl⟩ := (resolved.isClass a).mp isClass
  exact resolved.bases d known b ((resolved.each d known).base.symm.trans above)

variable {hierarchy : Hierarchy} (resolved : Resolved s classes)
  (fresh : ¬s.hierarchy.isClass d.name)
  (declared : s.hierarchy.declareClass d.name d.baseName? = some hierarchy)
  (members : Members d.name { s with hierarchy } d.body s')

include resolved declared members

theorem writes_classDef : Writes d.name d.body { s with hierarchy } s' := by
  refine members.writes (resolved.linked.of_links (links_declareClass declared) rfl rfl) ?_
  have distinct := (members.holdsClass declared).distinct
  rwa [Tree.ClassDef.methods, map_name_methods] at distinct

omit resolved in
theorem base?_classDef (c : String) :
    s'.hierarchy.base? c = if c = d.name then d.baseName? else s.hierarchy.base? c :=
  (congrFun members.sameBases.base? c).trans (Hierarchy.base?_declareClass declared c)

include fresh

theorem keeps_classDef : Keeps classes s s' := by
  have written := resolved.writes_classDef declared members
  refine ⟨fun d' known => ?_, fun c f isClass => ?_, written.kept⟩
  · rw [base?_classDef declared members, if_neg]
    exact fun same => fresh ((resolved.isClass _).mpr ⟨d', known, same⟩)
  · have other : c ≠ d.name := fun same => fresh (same ▸ isClass)
    rw [written.others c f fun both => other both.1]
    exact method?_declareClass declared other f

/-- A new class has the entries of its base. -/
theorem bind_classDef (f : String) :
    hierarchy.method? d.name f = d.baseName?.bind (s'.hierarchy.method? · f) := by
  have keeps := resolved.keeps_classDef fresh declared members
  rw [method?_declareClass_self declared]
  cases based : d.baseName? with
  | none => rfl
  | some b => exact (keeps.method? b f (isClass_of_declareClass declared b based)).symm

/-- A method that is written in a new class keeps the cell that the class takes, or gets a new
one. -/
theorem cell_classDef {n : Nat} (written : d.arity? f = some n) : ∃ cell,
    s'.hierarchy.method? d.name f = some ⟨cell, d.name⟩ ∧ (s'.cells.get cell).params.length = n ∧
    ((∃ owner, TakesCell s' d f ⟨cell, owner⟩) ∨
      s.cells.contents.length ≤ cell ∧ ∀ inherited, ¬TakesCell s' d f inherited) := by
  have writes := resolved.writes_classDef declared members
  have bind_eq := resolved.bind_classDef fresh declared members f
  have linked := resolved.linked.of_links (links_declareClass declared) rfl rfl
  obtain ⟨fd, found, rfl⟩ := Option.map_eq_some_iff.mp written
  obtain rfl : fd.name = f := by simpa using List.find?_some found
  obtain ⟨cell, entry, arity, chosen⟩ := writes.entries fd (List.mem_of_find?_eq_some found)
  have takes_iff : ∀ inherited, TakesCell s' d fd.name inherited ↔
      hierarchy.method? d.name fd.name = some inherited ∧ fd.name ≠ Hierarchy.constructorName ∧
        (s'.cells.get inherited.cell).params.length = fd.arity := by
    intro inherited
    rw [TakesCell, written, bind_eq]
    simp
  have same : ∀ inherited, hierarchy.method? d.name fd.name = some inherited →
      s'.cells.get inherited.cell = s.cells.get inherited.cell := fun inherited found =>
    writes.kept _ (linked.made (State.links_of_method? found))
  refine ⟨cell, entry, arity, chosen.imp ?_ ?_⟩
  · rintro ⟨notConstructor, -, owner, inherited⟩
    exact ⟨owner, (takes_iff _).mpr ⟨inherited, notConstructor, arity⟩⟩
  · rintro ⟨isNew, unfit⟩
    refine ⟨isNew, fun inherited takes => unfit inherited.cell ?_⟩
    obtain ⟨found, notConstructor, fits⟩ := (takes_iff inherited).mp takes
    exact ⟨notConstructor, same inherited found ▸ fits, inherited.definedIn, found⟩

theorem resolvesClass_classDef : ResolvesClass s' d := by
  have writes := resolved.writes_classDef declared members
  have bind_eq := resolved.bind_classDef fresh declared members
  have inherits : ∀ f, d.arity? f = none →
      s'.hierarchy.method? d.name f = d.baseName?.bind (s'.hierarchy.method? · f) := by
    intro f unwritten
    rw [← bind_eq]
    refine writes.others d.name f fun both => ?_
    have missing := List.find?_eq_none.mp (Option.map_eq_none_iff.mp unwritten)
    have listed := both.2
    rw [← map_name_methods] at listed
    obtain ⟨fd, known, rfl⟩ := List.mem_map.mp listed
    exact missing fd known (beq_self_eq_true _)
  refine ⟨?_, inherits, fun f n written => ?_, fun f entry inherited found takes => ?_⟩
  · rw [base?_classDef declared members, if_pos rfl]
  · obtain ⟨cell, entry, arity, -⟩ := resolved.cell_classDef fresh declared members written
    exact ⟨cell, entry, arity⟩
  · cases written : d.arity? f with
    | none =>
      rw [inherits f written, takes.1] at found
      cases found
      rfl
    | some n =>
      obtain ⟨cell, entry', -, ⟨owner, takes'⟩ | ⟨-, unfit⟩⟩ :=
        resolved.cell_classDef fresh declared members written
      · rw [entry'] at found
        cases found
        have same := takes'.1.symm.trans takes.1
        cases same
        rfl
      · exact absurd takes (unfit inherited)

/-- The cells that a new class owns are new. -/
theorem isNew_of_ownsCell (owns : OwnsCell s' d f cell) : s.cells.contents.length ≤ cell := by
  obtain ⟨entry, alone⟩ := owns
  cases written : d.arity? f with
  | none =>
    have resolves := resolved.resolvesClass_classDef fresh declared members
    rw [resolves.inherits f written] at entry
    exact absurd ⟨entry, by simp [written]⟩ (alone _)
  | some n =>
    obtain ⟨cell', entry', -, ⟨owner, takes⟩ | ⟨isNew, -⟩⟩ :=
      resolved.cell_classDef fresh declared members written
    · exact absurd takes (alone _)
    · rw [entry] at entry'
      cases entry'
      exact isNew

theorem classDef : Resolved s' (classes ++ [d]) := by
  have keeps := resolved.keeps_classDef fresh declared members
  have linked := (resolved.linked.of_links (links_declareClass declared) rfl rfl).members members
  have isClass : ∀ c, s'.hierarchy.isClass c ↔ c = d.name ∨ s.hierarchy.isClass c := by
    intro c
    rw [members.sameBases.isClass]
    exact Hierarchy.isClass_declareClass_iff declared
  -- the earlier classes own cells from before, the new one owns cells made by its members
  have older : ∀ d' ∈ classes, ∀ f cell, OwnsCell s' d' f cell → cell < s.cells.contents.length := by
    intro d' known f cell owns
    have before := (resolved.ownsCell_iff keeps known).mp owns
    exact resolved.linked.made (State.links_of_method? before.1)
  refine ⟨linked, fun c => ?_, ?_, fun d' known b based => ?_, fun d' known => ?_,
    fun d₁ known₁ d₂ known₂ f₁ f₂ cell owns₁ owns₂ => ?_⟩
  · rw [isClass, resolved.isClass]
    simp only [List.mem_append, List.mem_singleton]
    constructor
    · rintro (rfl | ⟨d', known, rfl⟩)
      · exact ⟨d, .inr rfl, rfl⟩
      · exact ⟨d', .inl known, rfl⟩
    · rintro ⟨d', known | rfl, rfl⟩
      · exact .inr ⟨d', known, rfl⟩
      · exact .inl rfl
  -- the one new link starts at a name that was no class, so no chain leads back to it
  · have others : ∀ x, x ≠ d.name → s'.hierarchy.base? x = s.hierarchy.base? x :=
      fun x other => (base?_classDef declared members x).trans (if_neg other)
    refine (resolved.acyclic.redirect_iff others).mpr fun up above leads => ?_
    rw [base?_classDef declared members, if_pos rfl] at above
    refine fresh (resolved.basesDeclared.isClass ?_ (Hierarchy.isSubclass_iff.mpr leads))
    exact isClass_of_declareClass declared up above
  · rw [isClass]
    rcases List.mem_append.mp known with known | isNew
    · exact .inr (resolved.bases d' known b based)
    · rw [List.mem_singleton.mp isNew] at based
      exact .inr (isClass_of_declareClass declared b based)
  · rcases List.mem_append.mp known with known | isNew
    · exact resolved.keep_class keeps known
    · rw [List.mem_singleton.mp isNew]
      exact resolved.resolvesClass_classDef fresh declared members
  · rcases List.mem_append.mp known₁ with known₁ | new₁
    · rcases List.mem_append.mp known₂ with known₂ | new₂
      · exact resolved.owners d₁ known₁ d₂ known₂ f₁ f₂ cell
          ((resolved.ownsCell_iff keeps known₁).mp owns₁)
          ((resolved.ownsCell_iff keeps known₂).mp owns₂)
      · rw [List.mem_singleton.mp new₂] at owns₂
        have isNew := resolved.isNew_of_ownsCell fresh declared members owns₂
        exact absurd (older d₁ known₁ f₁ cell owns₁) (Nat.not_lt.mpr isNew)
    · rw [List.mem_singleton.mp new₁] at owns₁ ⊢
      have isNew := resolved.isNew_of_ownsCell fresh declared members owns₁
      rcases List.mem_append.mp known₂ with known₂ | new₂
      · exact absurd (older d₂ known₂ f₂ cell owns₂) (Nat.not_lt.mpr isNew)
      · rw [List.mem_singleton.mp new₂]

end Resolved

/-! ## The pass -/

variable {classes : List Tree.ClassDef} {exceptions : List String}

/-- A statement of the top level resolves the class that it declares, if it declares one. -/
theorem Outlines.resolved (run : Outlines o s stmt o' s')
    (known : KnowsExceptions s.hierarchy exceptions) (resolved : Resolved s classes)
    (fresh : ∀ d ∈ stmt.class? exceptions, d.name ∉ classes.map (·.name)) :
    Resolved s' (classes ++ (stmt.class? exceptions).toList) := by
  have linked := resolved.linked.outlines run
  have unchanged : stmt.class? exceptions = none → Resolved s' classes →
      Resolved s' (classes ++ (stmt.class? exceptions).toList) := by
    intro noClass kept
    rwa [noClass, Option.toList_none, List.append_nil]
  cases run with
  | @classDef s' d pos hierarchy _ _ notException declared members =>
    have isClass : ¬d.IsException exceptions := by
      rintro ⟨base, based, isException⟩
      exact notException base based ((known base).mpr isException)
    have declares : Tree.Stmt.class? exceptions ⟨.classDef d, pos⟩ = some d := by
      simp [Tree.Stmt.class?, Tree.Stmt.classDef?, isClass]
    rw [declares]
    refine resolved.classDef (fun before => ?_) declared members
    obtain ⟨d', earlier, same⟩ := (resolved.isClass d.name).mp before
    exact fresh d declares (List.mem_map.mpr ⟨d', earlier, same⟩)
  | @exception d pos base _ based isException =>
    have derived : d.IsException exceptions := ⟨base, based, (known base).mp isException⟩
    refine unchanged ?_ (resolved.keep linked rfl rfl rfl fun _ _ => rfl)
    simp [Tree.Stmt.class?, Tree.Stmt.classDef?, derived]
  | function =>
    exact unchanged rfl (resolved.keep linked rfl rfl rfl fun _ made => get_alloc_of_lt made)
  | @main kind pos notFunction notClass =>
    refine unchanged ?_ resolved
    cases kind with
    | classDef d => exact absurd rfl (notClass d)
    | _ => rfl
  | _ => exact unchanged rfl (resolved.keep linked rfl rfl rfl fun _ _ => rfl)

theorem OutlinesAll.resolved (run : OutlinesAll o s stmts o' s')
    (known : KnowsExceptions s.hierarchy exceptions) (resolved : Resolved s classes)
    (distinct : ((classes ++ Tree.classesFrom exceptions stmts).map (·.name)).Nodup) :
    Resolved s' (classes ++ Tree.classesFrom exceptions stmts) := by
  induction run generalizing exceptions classes with
  | nil => simpa [Tree.classesFrom] using resolved
  | @cons o s stmt o₁ s₁ rest o' s' first _ ih =>
    have all : classes ++ Tree.classesFrom exceptions (stmt :: rest) =
        classes ++ (stmt.class? exceptions).toList ++
          Tree.classesFrom (stmt.exceptions exceptions) rest :=
      (List.append_assoc ..).symm
    rw [all] at distinct ⊢
    refine ih (first.exceptions_eq known) (first.resolved known resolved fun d declares => ?_)
      distinct
    rw [List.map_append, List.nodup_append] at distinct
    have apart := distinct.1
    rw [declares, List.map_append, List.nodup_append] at apart
    exact fun earlier => apart.2.2 d.name earlier d.name List.mem_cons_self rfl

theorem Resolved.empty : Resolved .empty [] where
  linked := .empty
  isClass c := by simp [State.empty, Hierarchy.empty, Hierarchy.isClass, Table.contains]
  acyclic a up above := by cases above
  bases := by simp
  each := by simp
  owners := by simp

end Translate

end TreeTyper
