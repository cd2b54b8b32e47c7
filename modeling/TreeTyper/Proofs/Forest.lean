import Mathlib.Data.List.Nodup
import Mathlib.Data.List.Perm.Subperm
import TreeTyper.Api.Standard
import TreeTyper.Proofs.Ancestors
import TreeTyper.Proofs.Owners
import TreeTyper.Tree.Build

/-!
# The bases form a forest

A name that is declared again gets a new base, while other names already stand
below it.  The tables stay a forest as long as no class statement names a base that
leads back to the name which it declares; in a forest every walk along the bases
ends, and the bound on walks cuts none off.

    (∀ x ≠ name, next' x = next x) →
      (Acyclic next' ↔ ∀ up, next' name = some up → ¬Leads next up name)     (Acyclic.redirect_iff)
    s a forest → (s' a forest ↔ ¬ClosesCycle s.hierarchy stmt)              (Outlines.isForest_iff)
-/

namespace TreeTyper

open Relation (ReflTransGen)

namespace Hierarchy

/-! ## Links without a cycle -/

variable {next next' : String → Option String} {name a b c up : String}

/-- No way up leads back to where it began. -/
def Acyclic (next : String → Option String) : Prop := ∀ a up, next a = some up → ¬Leads next up a

theorem exists_mem_chain (leads : Leads next a b) : ∃ steps, b ∈ chain next steps a := by
  induction leads using ReflTransGen.head_induction_on with
  | refl => exact ⟨0, List.mem_cons_self⟩
  | head step _ ih =>
    obtain ⟨steps, later⟩ := ih
    refine ⟨steps + 1, ?_⟩
    rw [chain, step]
    exact List.mem_cons_of_mem _ later

/-- Without a cycle no walk comes to a name again. -/
theorem acyclic_iff_nodup : Acyclic next ↔ ∀ name steps, (chain next steps name).Nodup := by
  constructor
  · intro acyclic name steps
    induction steps generalizing name with
    | zero => exact List.nodup_singleton name
    | succ steps ih =>
      rw [chain]
      split
      · next up above =>
        exact List.nodup_cons.mpr ⟨fun again => acyclic _ _ above (leads_of_mem_chain again), ih up⟩
      · exact List.nodup_singleton name
  · intro nodup a up above leads
    obtain ⟨steps, again⟩ := exists_mem_chain leads
    have walk := nodup a (steps + 1)
    rw [chain, above] at walk
    exact (List.nodup_cons.mp walk).1 again

/-- Links that agree but for those of one name lead to it alike. -/
theorem Leads.congr_up_to (same : ∀ x, x ≠ name → next' x = next x) (leads : Leads next a name) :
    Leads next' a name := by
  induction leads using ReflTransGen.head_induction_on with
  | refl => exact .refl
  | @head x y step _ ih =>
    by_cases here : x = name
    · rw [here]
      exact .refl
    · exact .head ((same x here).trans step) ih

/-- A way that does not meet a name does not need its link. -/
theorem Leads.congr_off (same : ∀ x, x ≠ name → next' x = next x) (off : ¬Leads next' a name)
    (leads : Leads next' a b) : Leads next a b := by
  induction leads using ReflTransGen.head_induction_on with
  | refl => exact .refl
  | @head x y step _ ih =>
    have differs : x ≠ name := by
      rintro rfl
      exact off .refl
    exact .head ((same x differs).symm.trans step) (ih fun later => off (.head step later))

/-- On a cycle every name leads back. -/
theorem Leads.around (above : next a = some up) (cycle : Leads next up a)
    (leads : Leads next up c) : Leads next c a := by
  induction leads with
  | refl => exact cycle
  | @tail c d _ step ih =>
    rcases ReflTransGen.cases_head ih with rfl | ⟨e, first, rest⟩
    · rw [above] at step
      cases step
      exact cycle
    · rw [step] at first
      cases first
      exact rest

/-- A new link of one name closes a cycle if, and only if, it leads back to the name. -/
theorem Acyclic.redirect_iff (acyclic : Acyclic next) (same : ∀ x, x ≠ name → next' x = next x) :
    Acyclic next' ↔ ∀ up, next' name = some up → ¬Leads next up name := by
  constructor
  · exact fun acyclic' up above leads => acyclic' name up above (leads.congr_up_to same)
  intro away a up above cycle
  have same' : ∀ x, x ≠ name → next x = next' x := fun x hx => (same x hx).symm
  have away' : ∀ up, next' name = some up → ¬Leads next' up name := fun up above leads =>
    away up above (leads.congr_up_to same')
  by_cases here : a = name
  · rw [here] at above cycle
    exact away' up above cycle
  by_cases meets : Leads next' up name
  · -- the cycle runs through the new link
    rcases ReflTransGen.cases_head (Leads.around above cycle meets) with back | ⟨d, first, rest⟩
    · exact here back.symm
    · exact away' d first ((rest.tail above).trans meets)
  · exact acyclic a up ((same a here).symm.trans above) (cycle.congr_off same meets)

theorem chain_starts_longer (steps k : Nat) (a : String) :
    chain next steps a <+: chain next (steps + k) a := by
  induction steps generalizing a with
  | zero =>
    rw [chain, chain.eq_def]
    exact List.prefix_iff_eq_append.mpr rfl
  | succ steps ih =>
    rw [Nat.add_right_comm, chain, chain]
    refine List.prefix_cons_inj _ |>.mpr ?_
    split
    · next up _ => exact ih up
    · exact List.prefix_refl _

/-- Without a cycle a walk with as many steps as there are names with something above them visits
all of its chain. -/
theorem Acyclic.chain_eq (acyclic : Acyclic next) {names : List String}
    (named : ∀ x y, next x = some y → x ∈ names) (k : Nat) (a : String) :
    chain next (names.length + k) a = chain next names.length a := by
  have within : chain next (names.length + k) a ⊆ chain next names.length a := fun x hx =>
    mem_chain_of_leads named (leads_of_mem_chain hx)
  have nodup := acyclic_iff_nodup.mp acyclic a (names.length + k)
  have shorter := (List.subperm_of_subset nodup within).length_le
  exact ((chain_starts_longer names.length k a).eq_of_length_le shorter).symm

/-- Names that come after those above them are on no cycle. -/
theorem Ordered.acyclic {names : List String} (ordered : Ordered next names)
    (others : ∀ name, name ∉ names → next name = none) : Acyclic next := by
  have listed : ∀ a ∈ names, Acc (fun x y => next y = some x) a := by
    clear others
    induction ordered with
    | nil => simp
    | @cons name names above _ ih =>
      refine List.forall_mem_cons.mpr ⟨⟨name, fun up step => ih up (above up step)⟩, ih⟩
  intro a up above cycle
  have known : a ∈ names := by
    by_contra unknown
    rw [others a unknown] at above
    cases above
  induction listed a known generalizing up with
  | intro a _ ih =>
    rcases ReflTransGen.cases_head cycle with rfl | ⟨d, first, rest⟩
    · exact ih _ above _ above cycle known
    · refine ih up above d first (rest.tail above) ?_
      by_contra unknown
      rw [others up unknown] at first
      cases first

/-! ## Forests -/

variable {h h' : Hierarchy}

/-- Going up from a name along the bases, any number of steps, never comes to a name again. -/
structure IsForest (h : Hierarchy) : Prop where
  classes : ∀ name steps, (chain h.base? steps name).Nodup
  exceptions : ∀ name steps, (chain h.exceptionBase? steps name).Nodup

theorem isForest_iff : h.IsForest ↔ Acyclic h.base? ∧ Acyclic h.exceptionBase? := by
  rw [acyclic_iff_nodup, acyclic_iff_nodup]
  exact ⟨fun forest => ⟨forest.classes, forest.exceptions⟩, fun both => ⟨both.1, both.2⟩⟩

theorem isForest_congr (bases : h'.base? = h.base?) (exceptions : h'.exceptions = h.exceptions) :
    h'.IsForest ↔ h.IsForest := by
  have custom : h'.exceptionBase? = h.exceptionBase? := by
    funext name
    rw [exceptionBase?, exceptionBase?, exceptions]
  rw [isForest_iff, isForest_iff, bases, custom]

theorem listed_of_base? (above : h.base? a = some b) : a ∈ h.classes.keys := by
  obtain ⟨info, found, -⟩ := Option.bind_eq_some_iff.mp above
  exact List.mem_map.mpr ⟨_, Table.mem_of_findIn found, rfl⟩

theorem listed_of_exceptionBase? (above : h.exceptionBase? a = some b) : a ∈ h.exceptions.keys :=
  List.mem_map.mpr ⟨_, Table.mem_of_findIn (Option.join_eq_some_iff.mp above), rfl⟩

theorem Acyclic.classesEnd (acyclic : Acyclic h.base?) : h.ClassesEnd := fun c => by
  have size : h.classes.keys.length = h.classes.size := List.length_map _
  refine chainEnds_iff.mpr fun k => ?_
  rw [← size]
  exact acyclic.chain_eq (fun _ _ => listed_of_base?) k c

/-- In a tree the ancestors of a class are the class and those of its base. -/
theorem Acyclic.ancestors_eq (acyclic : Acyclic h.base?) (c : String) :
    h.ancestors c = c :: ((h.base? c).map h.ancestors).getD [] := by
  have longer := chainEnds_iff.mp (acyclic.classesEnd c) 1
  rw [ancestors, ← longer, chain]
  cases h.base? c with
  | none => rfl
  | some b => rfl

/-- What holds of a class if it holds of its base holds of all classes. -/
theorem Acyclic.induction {motive : String → Prop} (acyclic : Acyclic h.base?)
    (step : ∀ c, (∀ b, h.base? c = some b → motive b) → motive c) (c : String) : motive c := by
  induction length : (h.ancestors c).length using Nat.strong_induction_on generalizing c with
  | _ n ih =>
    refine step c fun b above => ih _ ?_ b rfl
    rw [← length, acyclic.ancestors_eq c, above]
    exact Nat.lt_succ_self _

/-- In a forest no walk is cut off by its bound. -/
theorem IsForest.complete (forest : h.IsForest) : h.Complete := by
  obtain ⟨classes, exceptions⟩ := isForest_iff.mp forest
  intro name k
  refine ⟨chainEnds_iff.mp (classes.classesEnd name) k, ?_⟩
  have size : h.exceptions.keys.length = h.exceptions.size := List.length_map _
  rw [← size]
  exact exceptions.chain_eq (fun _ _ => listed_of_exceptionBase?) k name

theorem mem_exceptionChain_iff :
    b ∈ chain h.exceptionBase? h.exceptions.size a ↔ Leads h.exceptionBase? a b := by
  refine ⟨leads_of_mem_chain, fun leads => ?_⟩
  have size : h.exceptions.keys.length = h.exceptions.size := List.length_map _
  rw [← size]
  exact mem_chain_of_leads (fun x y above => listed_of_exceptionBase? above) leads

theorem Founded.isForest (founded : h.Founded) : h.IsForest := by
  obtain ⟨⟨classes, ordered, known, -⟩, exceptions, ordered', known', -⟩ := founded
  refine isForest_iff.mpr ⟨ordered.acyclic fun c hc => ?_, ordered'.acyclic fun c hc => ?_⟩
  · exact base?_of_not_isClass fun isClass => hc ((known c).mp isClass)
  · exact exceptionBase?_of_not_custom fun custom => hc ((known' c).mp custom)

/-! ## One declaration -/

theorem base?_declareClass {base : Option String} (declared : h.declareClass name base = some h')
    (c : String) : h'.base? c = if c = name then base else h.base? c := by
  obtain ⟨h₁, methods, rfl, ⟨rfl, rfl, -⟩ | ⟨b, info, rfl, found, -, rfl⟩⟩ :=
    declareClass_cases declared
  · exact base?_withClass ..
  · have same := SameBases.withClass { info with subclasses := info.subclasses ++ [name] } found rfl
    rw [base?_withClass, same.base?]

theorem exceptionBase?_declareException (h : Hierarchy) (name base c : String) :
    (h.declareException name base).exceptionBase? c =
      if c = name then (if base = Ty.exceptionName then none else some base)
      else h.exceptionBase? c := by
  rw [exceptionBase?, declareException, Table.find?_insert]
  split
  · rfl
  · rfl

end Hierarchy

/-- The class that a statement declares. -/
def Tree.Stmt.classDef? : Tree.Stmt → Option Tree.ClassDef
  | ⟨.classDef d, _⟩ => some d
  | _ => none

namespace Translate

open Hierarchy (Leads chain)

instance (h : Hierarchy) (a b : String) : Decidable (Leads h.base? a b) :=
  decidable_of_iff (h.isSubclass a b = true) Hierarchy.isSubclass_iff

instance (h : Hierarchy) (a b : String) : Decidable (Leads h.exceptionBase? a b) :=
  decidable_of_iff (b ∈ chain h.exceptionBase? h.exceptions.size a) Hierarchy.mem_exceptionChain_iff

/-- The base in a class statement is the name that it declares, or leads there. -/
def ClosesCycle (h : Hierarchy) (stmt : Tree.Stmt) : Prop :=
  ∃ d ∈ stmt.classDef?, ∃ base ∈ d.baseName?,
    if h.isException base then base ≠ Ty.exceptionName ∧ Leads h.exceptionBase? base d.name
    else Leads h.base? base d.name

instance (h : Hierarchy) (stmt : Tree.Stmt) : Decidable (ClosesCycle h stmt) :=
  inferInstanceAs (Decidable (∃ d ∈ stmt.classDef?, ∃ base ∈ d.baseName?, _))

theorem closesCycle_classDef_iff {h : Hierarchy} {d : Tree.ClassDef} {pos : Pos} :
    ClosesCycle h ⟨.classDef d, pos⟩ ↔ ∃ base ∈ d.baseName?,
      if h.isException base then base ≠ Ty.exceptionName ∧ Leads h.exceptionBase? base d.name
      else Leads h.base? base d.name := by
  simp [ClosesCycle, Tree.Stmt.classDef?]

variable {api : ApiTables} {o o' : Outline} {s s' : State} {stmt : Tree.Stmt}
  {stmts : List Tree.Stmt}

/-- A statement of the top level keeps the tables a forest if, and only if, it closes no cycle. -/
theorem Outlines.isForest_iff (run : Outlines o s stmt o' s') (forest : s.hierarchy.IsForest) :
    s'.hierarchy.IsForest ↔ ¬ClosesCycle s.hierarchy stmt := by
  obtain ⟨classes, exceptions⟩ := Hierarchy.isForest_iff.mp forest
  -- whatever declares no class leaves both relations, and closes no cycle
  have unchanged : s'.hierarchy = s.hierarchy → stmt.classDef? = none →
      (s'.hierarchy.IsForest ↔ ¬ClosesCycle s.hierarchy stmt) := by
    intro same noClass
    rw [same]
    refine ⟨fun _ closes => ?_, fun _ => forest⟩
    obtain ⟨d, declares, -⟩ := closes
    rw [noClass] at declares
    cases declares
  cases run with
  | @classDef s' d pos hierarchy _ _ notException declared members =>
    have same := members.sameBases
    have custom : hierarchy.exceptionBase? = s.hierarchy.exceptionBase? := by
      funext c
      rw [Hierarchy.exceptionBase?, Hierarchy.exceptionBase?, exceptions_declareClass declared]
    -- one link is new, that of the declared class: it closes a cycle iff its base leads back
    have redirect := classes.redirect_iff fun x hx =>
      (Hierarchy.base?_declareClass declared x).trans (if_neg hx)
    have link : hierarchy.base? d.name = d.baseName? :=
      (Hierarchy.base?_declareClass declared d.name).trans (if_pos rfl)
    rw [Hierarchy.isForest_congr same.base? same.exceptions, Hierarchy.isForest_iff, custom,
      redirect, link, closesCycle_classDef_iff]
    constructor
    · rintro ⟨away, -⟩ ⟨base, based, leads⟩
      rw [if_neg (notException base based)] at leads
      exact away base based leads
    · refine fun away => ⟨fun base based leads => away ⟨base, based, ?_⟩, exceptions⟩
      rwa [if_neg (notException base based)]
  | @exception d pos base _ based isException =>
    have kept : (s.hierarchy.declareException d.name base).base? = s.hierarchy.base? := rfl
    -- the same for exceptions, except that the root has no link
    have redirect := exceptions.redirect_iff fun x hx =>
      (Hierarchy.exceptionBase?_declareException s.hierarchy d.name base x).trans (if_neg hx)
    rw [Hierarchy.isForest_iff, kept, redirect, Hierarchy.exceptionBase?_declareException,
      if_pos rfl, closesCycle_classDef_iff, based]
    constructor
    · rintro ⟨-, away⟩ ⟨base', same, leads⟩
      cases same
      rw [if_pos isException] at leads
      exact away base (if_neg leads.1) leads.2
    · refine fun away => ⟨classes, fun up above leads => away ⟨base, rfl, ?_⟩⟩
      rw [if_pos isException]
      split at above
      · cases above
      · next custom =>
        cases above
        exact ⟨custom, leads⟩
  | @main kind pos notFunction notClass =>
    refine unchanged rfl ?_
    cases kind with
    | classDef d => exact absurd rfl (notClass d)
    | _ => rfl
  | _ => exact unchanged rfl rfl

/-! ## The pass -/

/-- No statement closes a cycle in the tables that those before it leave. -/
def NoneClose (api : ApiTables) : Outline → State → List Tree.Stmt → Prop
  | _, _, [] => True
  | o, s, stmt :: rest =>
    ¬ClosesCycle s.hierarchy stmt ∧
      match (outlineStmt api o stmt).run s with
      | (.ok o', s') => NoneClose api o' s' rest
      | (.error _, _) => True

instance decidableNoneClose (api : ApiTables) :
    (o : Outline) → (s : State) → (stmts : List Tree.Stmt) → Decidable (NoneClose api o s stmts)
  | _, _, [] => isTrue trivial
  | o, s, stmt :: rest =>
    haveI : Decidable (match (outlineStmt api o stmt).run s with
        | (.ok o', s') => NoneClose api o' s' rest
        | (.error _, _) => True) :=
      match (outlineStmt api o stmt).run s with
      | (.ok o', s') => decidableNoneClose api o' s' rest
      | (.error _, _) => isTrue trivial
    inferInstanceAs (Decidable (_ ∧ _))

/-- The tables are a forest after every part of a pass over statements none of which closes a cycle,
and only then. -/
theorem noneClose_iff (forest : s.hierarchy.IsForest)
    (run : (outlineFrom api o stmts).run s = (.ok o', s')) :
    NoneClose api o s stmts ↔ ∀ before after o₁ s₁, stmts = before ++ after →
      (outlineFrom api o before).run s = (.ok o₁, s₁) → s₁.hierarchy.IsForest := by
  induction stmts generalizing o s with
  | nil =>
    refine ⟨fun _ before after o₁ s₁ parts part => ?_, fun _ => trivial⟩
    obtain ⟨rfl, -⟩ := List.append_eq_nil_iff.mp parts.symm
    cases part
    exact forest
  | cons stmt rest ih =>
    obtain ⟨o₁, s₁, first, others⟩ := Runs.of_bind_ok run
    have step := ((outlineStmt_runs stmt).of_ok first).isForest_iff forest
    simp only [NoneClose, first]
    constructor
    · rintro ⟨opens, later⟩ before after o₂ s₂ parts part
      have forest₁ := step.mpr opens
      -- a first part is empty, or it begins with the first statement
      cases before with
      | nil =>
        cases part
        exact forest
      | cons stmt' before =>
        obtain ⟨rfl, parts'⟩ := List.cons.inj parts
        refine (ih forest₁ others).mp later before after o₂ s₂ parts' ?_
        rwa [outlineFrom, Runs.run_bind_ok first] at part
    · intro all
      have forest₁ : s₁.hierarchy.IsForest := by
        refine all [stmt] rest o₁ s₁ rfl ?_
        rw [outlineFrom, Runs.run_bind_ok first]
        rfl
      refine ⟨step.mp forest₁, (ih forest₁ others).mpr fun before after o₂ s₂ parts part => ?_⟩
      refine all (stmt :: before) after o₂ s₂ (by rw [parts]; rfl) ?_
      rwa [outlineFrom, Runs.run_bind_ok first]

end Translate

/-! ## Top theorem -/

open Translate in
/-- After the pass over the top level, and after each part of it, the classes and the custom
exceptions are a forest, if no class statement names a base that leads back to the name it declares;
so they are at every later moment of the run, and no walk along the bases is cut off.  Names that are
declared once close no cycle. -/
theorem bases_form_forest {api : ApiTables} {m : Tree.Module} {o : Outline} {start : State}
    (outlined : (outline api m).run .empty = (.ok o, start)) :
    (NoneClose api .empty .empty m.body ↔ ∀ before after o₁ s₁, m.body = before ++ after →
      (outlineFrom api .empty before).run .empty = (.ok o₁, s₁) → s₁.hierarchy.IsForest) ∧
    (NoneClose api .empty .empty m.body → ∀ s, Later api o start s →
      s.hierarchy.IsForest ∧ s.hierarchy.Complete) ∧
    (m.classNames.Nodup → NoneClose api .empty .empty m.body) := by
  have along := noneClose_iff Hierarchy.Founded.empty.isForest outlined
  refine ⟨along, fun opens s later => ?_, fun distinct => along.mpr ?_⟩
  · have forest : start.hierarchy.IsForest :=
      along.mp opens m.body [] o start (List.append_nil _).symm outlined
    have shape := later.ownersGrow.shape
    have forest' := (Hierarchy.isForest_congr shape.base?_eq shape.exceptions).mpr forest
    exact ⟨forest', forest'.complete⟩
  · intro before after o₁ s₁ parts part
    have prefixNames := (List.prefix_append before after).sublist.filterMap Tree.Stmt.className?
    rw [← parts] at prefixNames
    exact (((outlineFrom_runs before).of_ok part).founded .empty
      (.empty (distinct.sublist prefixNames))).isForest

open Tree.Build in
/-- A class that is declared again, with a new base, when another one already stands below it. -/
def regrouped : Tree.Module :=
  ⟨[classDef "Shape" none [pass], classDef "Square" (some "Shape") [pass],
    classDef "Figure" none [pass], classDef "Shape" (some "Figure") [pass]]⟩

open Translate in
/-- Whether the classes of `regrouped` stand above each other as in its last declarations. -/
def regroupedChain : Bool :=
  passes (outline ApiTables.standard regrouped) .empty fun _ start => decide <|
    NoneClose ApiTables.standard .empty .empty regrouped.body ∧
    start.hierarchy.ancestors "Square" = ["Square", "Shape", "Figure"]

open Translate in
set_option maxRecDepth 100000 in
theorem bases_form_forest_regrouped : ∃ o start,
    (outline ApiTables.standard regrouped).run .empty = (.ok o, start) ∧
    NoneClose ApiTables.standard .empty .empty regrouped.body ∧ ¬regrouped.classNames.Nodup ∧
    start.hierarchy.IsForest ∧ start.hierarchy.Complete ∧
    start.hierarchy.ancestors "Square" = ["Square", "Shape", "Figure"] := by
  have checked : regroupedChain = true := by
    decide +kernel
  obtain ⟨o, start, outlined, stands⟩ := exists_of_passes checked
  obtain ⟨opens, chain⟩ := of_decide_eq_true stands
  obtain ⟨forest, complete⟩ := (bases_form_forest outlined).2.1 opens start .refl
  exact ⟨o, start, outlined, opens, by decide, forest, complete, chain⟩

open Tree.Build in
/-- A class that is declared again below itself; an exception, if it has a `root`. -/
def selfBased (root : Option String) : Tree.Module :=
  ⟨[classDef "Shape" root [pass], classDef "Shape" (some "Shape") [pass]]⟩

open Translate in
/-- Whether the outline makes `Shape` its own base, and the module is translated. -/
def basedOnItself (root : Option String) (base? : Hierarchy → String → Option String) : Bool :=
  passes (outline ApiTables.standard (selfBased root)) .empty fun _ start => decide <|
    base? start.hierarchy "Shape" = some "Shape" ∧
    (translate ApiTables.standard (selfBased root)).isOk

open Translate in
set_option maxRecDepth 100000 in
/-- A declaration does not look for the name that it declares above its base: a class that names
itself, once it is declared, becomes its own base, and so does an exception. -/
theorem bases_close_cycle :
    (∃ o start, (outline ApiTables.standard (selfBased none)).run .empty = (.ok o, start) ∧
      (translate ApiTables.standard (selfBased none)).isOk ∧
      start.hierarchy.base? "Shape" = some "Shape" ∧ ¬start.hierarchy.IsForest) ∧
    ∃ o start, (outline ApiTables.standard (selfBased Ty.exceptionName)).run .empty =
        (.ok o, start) ∧
      (translate ApiTables.standard (selfBased Ty.exceptionName)).isOk ∧
      start.hierarchy.exceptionBase? "Shape" = some "Shape" ∧ ¬start.hierarchy.IsForest := by
  have classes : basedOnItself none Hierarchy.base? = true := by
    decide +kernel
  have exceptions : basedOnItself Ty.exceptionName Hierarchy.exceptionBase? = true := by
    decide +kernel
  constructor
  · obtain ⟨o, start, outlined, closes⟩ := exists_of_passes classes
    obtain ⟨based, translated⟩ := of_decide_eq_true closes
    refine ⟨o, start, outlined, translated, based, fun forest => ?_⟩
    exact (Hierarchy.isForest_iff.mp forest).1 _ _ based .refl
  · obtain ⟨o, start, outlined, closes⟩ := exists_of_passes exceptions
    obtain ⟨based, translated⟩ := of_decide_eq_true closes
    refine ⟨o, start, outlined, translated, based, fun forest => ?_⟩
    exact (Hierarchy.isForest_iff.mp forest).2 _ _ based .refl

end TreeTyper
