import TreeTyper.Proofs.Closed
import TreeTyper.Proofs.Law.Types
import TreeTyper.Proofs.Sharing

/-!
# No placeholder leaves the tables

`any`, `number` and the placeholders stand in signatures and describe no value.  A
signature of the standard tables returns placeholders only if the type that owns it
binds them, and it is matched against a receiver whose type has this head.  The head
of a list, set or dictionary is also the name that a class or an exception can have.
A class of the name keeps the methods of the tables away, but slices ask for the head
alone.  So no module leaks a placeholder in which nothing is called `List`, and
nothing but a class is called `Dictionary` or `Set`.

    (∀ name ∈ m.classNames, m.Admits name) → translate ApiTables.standard m = .ok typed →
      ∀ t ∈ typed.types, t.describesValue                           (types_describe_values)
-/

namespace TreeTyper

namespace Ty

/-! ## Types of values -/

mutual

/-- Whether the atoms and the placeholders of a type pass, and neither `any` nor `number` occurs
in it. -/
def drawnFrom (atoms : String → Bool) (places : Placeholder → Bool) : Ty → Bool
  | atom name => atoms name
  | placeholder p => places p
  | any => false
  | number => false
  | hole => true
  | list t => drawnFrom atoms places t
  | set t => drawnFrom atoms places t
  | array t _ => drawnFrom atoms places t
  | dictionary k v => drawnFrom atoms places k && drawnFrom atoms places v
  | tuple ts => allDrawnFrom atoms places ts
  | function ps r => allDrawnFrom atoms places ps && drawnFrom atoms places r

def allDrawnFrom (atoms : String → Bool) (places : Placeholder → Bool) : List Ty → Bool
  | [] => true
  | t :: ts => drawnFrom atoms places t && allDrawnFrom atoms places ts

end

/-- Whether no type at any depth belongs to signatures alone. -/
def describesValue (t : Ty) : Bool := t.drawnFrom (fun _ => true) (fun _ => false)

variable {atoms atoms' : String → Bool} {places : Placeholder → Bool}

theorem allDrawnFrom_iff {ts : List Ty} :
    allDrawnFrom atoms places ts = true ↔ ∀ t ∈ ts, t.drawnFrom atoms places = true := by
  induction ts with
  | nil => simp [allDrawnFrom]
  | cons t ts ih => simp [allDrawnFrom, ih]

theorem hereditary_drawnFrom (builtin : ∀ name ∈ builtinNames, atoms name) :
    Hereditary fun t => t.drawnFrom atoms places where
  hole := rfl
  builtin := builtin
  list := Iff.rfl
  set := Iff.rfl
  array := Iff.rfl
  dictionary := Bool.and_eq_true_iff
  tuple := allDrawnFrom_iff
  function := Bool.and_eq_true_iff.trans (and_congr_left' allDrawnFrom_iff)

mutual

theorem drawnFrom_mono (more : ∀ name, atoms name → atoms' name) :
    ∀ t : Ty, t.drawnFrom atoms places → t.drawnFrom atoms' places
  | atom _, passes => more _ passes
  | placeholder _, passes => passes
  | hole, _ => rfl
  | list t, passes => drawnFrom_mono more t passes
  | set t, passes => drawnFrom_mono more t passes
  | array t _, passes => drawnFrom_mono more t passes
  | dictionary k v, passes => by
    simp only [drawnFrom, Bool.and_eq_true] at passes ⊢
    exact ⟨drawnFrom_mono more k passes.1, drawnFrom_mono more v passes.2⟩
  | tuple ts, passes => allDrawnFrom_mono more ts passes
  | function ps r, passes => by
    simp only [drawnFrom, Bool.and_eq_true] at passes ⊢
    exact ⟨allDrawnFrom_mono more ps passes.1, drawnFrom_mono more r passes.2⟩

theorem allDrawnFrom_mono (more : ∀ name, atoms name → atoms' name) :
    ∀ ts : List Ty, allDrawnFrom atoms places ts → allDrawnFrom atoms' places ts
  | [], _ => rfl
  | t :: ts, passes => by
    simp only [allDrawnFrom, Bool.and_eq_true] at passes ⊢
    exact ⟨drawnFrom_mono more t passes.1, allDrawnFrom_mono more ts passes.2⟩

end

/-! ## Substitution -/

/-- The placeholders that a receiver binds whose type has a head. -/
def binds (head : String) (p : Placeholder) : Bool :=
  match p with
  | .element => head == "List" || head == "Set"
  | .key | .value => head == "Dictionary"

theorem mem_containers_of_binds {head : String} {p : Placeholder} (bound : binds head p) :
    head ∈ ["List", "Dictionary", "Set"] := by
  cases p <;> simp_all [binds]
  tauto

/-- A type with a head binds the placeholders of the head, unless it is an atom of this name. -/
theorem isSome_of_binds {t : Ty} {p : Placeholder} (bound : binds t.head p)
    (noAtom : ∀ name, t = atom name → binds name p = false) :
    ((Bindings.ofReceiver t).get? p).isSome := by
  cases t with
  | atom name => exact absurd bound (by simp [head, noAtom name rfl])
  | placeholder q => cases p <;> cases q <;> exact absurd bound (by decide)
  | _ => cases p <;> simp_all [binds, head, Bindings.ofReceiver, Bindings.get?]

mutual

/-- Bindings take the place of all placeholders that pass. -/
theorem Hereditary.substitute {V : Ty → Prop} (H : Hereditary V) {b : Bindings} (all : b.AllTypes V)
    (bound : ∀ p, places p → (b.get? p).isSome) :
    ∀ t : Ty, t.drawnFrom (· ∈ builtinNames) places → V (t.substitute b)
  | .atom name, passes => H.builtin name (of_decide_eq_true passes)
  | .placeholder p, passes => by
    rw [Ty.substitute]
    obtain ⟨u, found⟩ := Option.isSome_iff_exists.mp (bound p passes)
    rw [found]
    exact all p u found
  | .hole, _ => H.hole
  | .list t, passes => H.list.mpr (Hereditary.substitute H all bound t passes)
  | .set t, passes => H.set.mpr (Hereditary.substitute H all bound t passes)
  | .array t _, passes => H.array.mpr (Hereditary.substitute H all bound t passes)
  | .dictionary k v, passes => by
    obtain ⟨passesKey, passesValue⟩ := Bool.and_eq_true_iff.mp passes
    exact H.dictionary.mpr ⟨Hereditary.substitute H all bound k passesKey,
      Hereditary.substitute H all bound v passesValue⟩
  | .tuple ts, passes => H.tuple.mpr (Hereditary.substituteAll H all bound ts passes)
  | .function ps r, passes => by
    obtain ⟨passesParams, passesRet⟩ := Bool.and_eq_true_iff.mp passes
    exact H.function.mpr ⟨Hereditary.substituteAll H all bound ps passesParams,
      Hereditary.substitute H all bound r passesRet⟩

theorem Hereditary.substituteAll {V : Ty → Prop} (H : Hereditary V) {b : Bindings}
    (all : b.AllTypes V) (bound : ∀ p, places p → (b.get? p).isSome) :
    ∀ ts : List Ty, allDrawnFrom (· ∈ builtinNames) places ts → ∀ t ∈ Ty.substituteAll b ts, V t
  | [], _ => by simp [Ty.substituteAll]
  | t :: ts, passes => by
    obtain ⟨first, others⟩ := Bool.and_eq_true_iff.mp passes
    rw [Ty.substituteAll, List.forall_mem_cons]
    exact ⟨Hereditary.substitute H all bound t first,
      Hereditary.substituteAll H all bound ts others⟩

end

end Ty

/-! ## Tables -/

/-- Whether an expansion that is looked up for a head, or for none, asks for placeholders that are
bound: the methods of dictionaries and sets are in the tables under these heads. -/
def Expansion.asksBound (head : Option String) : Expansion → Bool
  | .call space _ => space ∉ ["List", "Dictionary", "Set"]
  | .method owner _ | .swapped owner _ => owner ∉ ["Dictionary", "Set"] || head == some owner
  | .length | .regex => true

/-- The signatures return placeholders only if their owner binds them, and ask for no others. -/
structure ApiTables.BindsPlaces (api : ApiTables) : Prop where
  returns : ∀ {owner name signature}, api.signature? owner name = some signature →
    signature.ret.drawnFrom (· ∈ Ty.builtinNames) (Ty.binds owner)
  functions : ∀ {space name entry arity expansion}, api.function? space name = some entry →
    entry.select? arity = some expansion → expansion.asksBound none
  methods : ∀ {head name entry arity expansion}, api.method? head name = some entry →
    entry.select? arity = some expansion → expansion.asksBound (some head)

open ApiTables Overrides in
theorem ApiTables.bindsPlaces_of_cells {api : ApiTables}
    (returns : ∀ cell ∈ cells api.signatures,
      cell.2.2.ret.drawnFrom (· ∈ Ty.builtinNames) (Ty.binds cell.1))
    (functions : ∀ cell ∈ cells api.functions, ∀ e ∈ cell.2.2.expansions, e.asksBound none)
    (methods : ∀ cell ∈ cells api.methods, ∀ e ∈ cell.2.2.expansions, e.asksBound (some cell.1)) :
    api.BindsPlaces where
  returns found := returns _ (mem_cells_of_lookup found)
  functions found selected :=
    functions _ (mem_cells_of_lookup found) _ (ApiEntry.mem_expansions selected)
  methods found selected :=
    methods _ (mem_cells_of_lookup found) _ (ApiEntry.mem_expansions selected)

set_option maxRecDepth 100000 in
theorem ApiTables.bindsPlaces_standard : ApiTables.standard.BindsPlaces :=
  bindsPlaces_of_cells (by decide +kernel) (by decide +kernel) (by decide +kernel)

theorem Expansion.head_of_asksBound {expansion : Expansion} {head : Option String}
    {owner message : String} (asks : expansion.asksBound head)
    (target : expansion.method? = some (owner, message)) :
    owner ∉ ["Dictionary", "Set"] ∨ head = some owner := by
  cases expansion with
  | method | swapped =>
    cases target
    exact (Bool.or_eq_true_iff.mp asks).imp of_decide_eq_true eq_of_beq
  | _ => cases target

/-- What is reached was looked up for no head, or for one that is no class. -/
theorem Reached.asksBound {api : ApiTables} {h : Hierarchy} {expansion : Expansion}
    (bound : api.BindsPlaces) (reached : Reached api h expansion) :
    ∃ head, expansion.asksBound head ∧ ∀ c ∈ head, ¬h.isClass c := by
  cases reached with
  | function found selected => exact ⟨none, bound.functions found selected, nofun⟩
  | @method head _ _ _ _ noClass found selected =>
    refine ⟨some head, bound.methods found selected, ?_⟩
    rintro c ⟨⟩
    exact noClass
  | builtin known =>
    have builtin : ∀ e ∈ Expansion.builtin, e.asksBound none := by decide
    exact ⟨none, builtin _ known, nofun⟩

/-! ## Names -/

/-- Names that a hierarchy can give without a value being taken for a container: a class keeps the
methods of dictionaries and sets away, and slices look at the name alone. -/
structure Hierarchy.AdmitsNames (h : Hierarchy) (names : String → Bool) : Prop where
  builtin : ∀ name ∈ Ty.builtinNames, names name
  noList : names "List" = false
  others : ∀ name ∈ ["Dictionary", "Set"], names name → h.isClass name
  classes : ∀ name, h.isClass name → names name
  exceptions : ∀ name, h.isException name → names name

namespace Translate

/-- A name is no head under which the tables find methods that ask for placeholders. -/
theorem binds_eq_false {api : ApiTables} {h : Hierarchy} {names : String → Bool}
    {expansion : Expansion} {owner message : String} (bound : api.BindsPlaces)
    (admits : h.AdmitsNames names) (reached : Reached api h expansion)
    (target : expansion.method? = some (owner, message)) (named : names owner) (p : Placeholder) :
    Ty.binds owner p = false := by
  by_contra binds
  obtain ⟨head, asks, noClass⟩ := reached.asksBound bound
  rcases List.mem_cons.mp (Ty.mem_containers_of_binds (eq_true_of_ne_false binds)) with rfl | other
  · exact absurd named (by simp [admits.noList])
  · have found := (Expansion.head_of_asksBound asks target).resolve_left fun h => h other
    exact noClass owner found (admits.others owner other named)

/-- The standard tables answer with types over the names that a hierarchy can give. -/
theorem yields_drawnFrom {api : ApiTables} {h : Hierarchy} {names : String → Bool}
    (bound : api.BindsPlaces) (admits : h.AdmitsNames names) :
    Yields (fun t => t.drawnFrom names fun _ => false) api h := by
  have H : Ty.Hereditary fun t => t.drawnFrom names fun _ => false :=
    Ty.hereditary_drawnFrom admits.builtin
  refine ⟨admits.classes, admits.exceptions, ?_, ?_⟩
  · intro h' space function signature name args found reached signed hArgs matched
    obtain ⟨⟨b, all, ret, -⟩, -⟩ := H.matchSignature (by simp) hArgs matched
    obtain ⟨head, asks, -⟩ := reached.asksBound bound
    rw [ret]
    refine H.substitute all (fun p binds => ?_) _ (bound.returns (signature?_of_signatureOf signed))
    exact absurd (Ty.mem_containers_of_binds binds) (of_decide_eq_true asks)
  · intro h' expansion owner message signature name args found receiver reached target signed headed
      hReceiver hArgs matched
    have hSome : ∀ t ∈ some receiver, t.drawnFrom names (fun _ => false) := by
      rintro t ⟨⟩
      exact hReceiver
    obtain ⟨⟨b, all, ret, within⟩, -⟩ := H.matchSignature hSome hArgs matched
    rw [ret]
    refine H.substitute all (fun p binds => ?_) _ (bound.returns (signature?_of_signatureOf signed))
    rw [← headed] at binds
    refine within receiver rfl p (Ty.isSome_of_binds binds ?_)
    rintro name rfl
    obtain rfl : name = owner := headed
    exact binds_eq_false bound admits reached target hReceiver p

/-! ## Modules -/

section Outlines

variable {o o' : Outline} {s s' : State} {stmts : List Tree.Stmt}

theorem OutlinesAll.isClass_of (run : OutlinesAll o s stmts o' s') {c : String}
    (isClass : s.hierarchy.isClass c) : s'.hierarchy.isClass c := by
  induction run with
  | nil => exact isClass
  | cons first _ ih => exact ih (first.isClass_of isClass)

/-- The names of classes and exceptions are those of the class statements. -/
theorem OutlinesAll.mem_classNames (run : OutlinesAll o s stmts o' s') {c : String}
    (named : s'.hierarchy.isClass c ∨ s'.hierarchy.isCustomException c) :
    (s.hierarchy.isClass c ∨ s.hierarchy.isCustomException c) ∨
      c ∈ stmts.filterMap Tree.Stmt.className? := by
  induction run with
  | nil => exact .inl named
  | @cons o s stmt _ _ rest _ _ first _ ih =>
    rcases ih named with before | later
    · rcases first.isClass before with before | here
      · exact .inl before
      · exact .inr (List.mem_filterMap.mpr ⟨stmt, List.mem_cons_self, here⟩)
    · exact .inr (((List.sublist_cons_self stmt rest).filterMap _).subset later)

theorem Outlines.isClass_of_class? {stmt : Tree.Stmt} (run : Outlines o s stmt o' s')
    {exceptions : List String} (known : KnowsExceptions s.hierarchy exceptions) {d : Tree.ClassDef}
    (declares : stmt.class? exceptions = some d) : s'.hierarchy.isClass d.name := by
  obtain ⟨isDef, notException⟩ := Option.filter_eq_some_iff.mp declares
  cases run with
  | classDef _ _ _ declared members =>
    cases isDef
    rw [members.sameBases.isClass]
    exact (Hierarchy.isClass_declareClass_iff declared).mpr (.inl rfl)
  | @exception _ _ base _ based isException =>
    cases isDef
    exact absurd ⟨base, based, (known base).mp isException⟩ (of_decide_eq_true notException)
  | @main kind _ _ notClass =>
    cases kind with
    | classDef d => exact absurd rfl (notClass d)
    | _ => cases isDef
  | _ => cases isDef

theorem OutlinesAll.isClass_of_classes (run : OutlinesAll o s stmts o' s') {exceptions : List String}
    (known : KnowsExceptions s.hierarchy exceptions) :
    ∀ d ∈ Tree.classesFrom exceptions stmts, s'.hierarchy.isClass d.name := by
  induction run generalizing exceptions with
  | nil => simp [Tree.classesFrom]
  | cons first rest ih =>
    rw [Tree.classesFrom, List.forall_mem_append]
    refine ⟨fun d declares => ?_, ih (first.exceptions_eq known)⟩
    exact rest.isClass_of (first.isClass_of_class? known (Option.mem_toList.mp declares))

end Outlines

end Translate

namespace Tree

/-- A name that a class or an exception of a module can have without a value of it being taken for
a list, a dictionary or a set. -/
def Module.Admits (m : Module) (name : String) : Prop :=
  name ≠ "List" ∧ (name ∈ ["Dictionary", "Set"] → name ∈ m.classes.map (·.name))

instance (m : Module) (name : String) : Decidable (m.Admits name) :=
  inferInstanceAs (Decidable (_ ∧ _))

theorem Module.admits_builtin (m : Module) : ∀ name ∈ Ty.builtinNames, m.Admits name := by
  intro name known
  have apart : ∀ name ∈ Ty.builtinNames, name ≠ "List" ∧ name ∉ ["Dictionary", "Set"] := by decide
  obtain ⟨noList, noOther⟩ := apart name known
  exact ⟨noList, fun other => absurd other noOther⟩

end Tree

namespace Translate

theorem admitsNames_of_outline {m : Tree.Module} (admits : ∀ name ∈ m.classNames, m.Admits name)
    {o : Outline} {s : State} (run : OutlinesAll .empty .empty m.body o s) :
    s.hierarchy.AdmitsNames fun name => m.Admits name := by
  have named : ∀ name, s.hierarchy.isClass name ∨ s.hierarchy.isCustomException name →
      m.Admits name := by
    intro name known
    refine admits name ((run.mem_classNames known).resolve_left ?_)
    simp [State.empty, Hierarchy.empty, Hierarchy.isClass, Hierarchy.isCustomException,
      Table.contains]
  refine ⟨fun name known => decide_eq_true (m.admits_builtin name known),
    by simp [Tree.Module.Admits], fun name other passes => ?_,
    fun name isClass => decide_eq_true (named name (.inl isClass)), fun name isException => ?_⟩
  · obtain ⟨d, declared, rfl⟩ := List.mem_map.mp ((of_decide_eq_true passes).2 other)
    exact run.isClass_of_classes knowsExceptions_empty d declared
  · rcases Bool.or_eq_true_iff.mp isException with isRoot | isCustom
    · rw [eq_of_beq isRoot]
      exact decide_eq_true ⟨by decide, by simp [Ty.exceptionName]⟩
    · exact decide_eq_true (named name (.inr isCustom))

end Translate

open Translate in
/-- If nothing is called `List`, and nothing but a class `Dictionary` or `Set`, every type in a
module that is translated with the standard tables describes a value. -/
theorem types_describe_values (m : Tree.Module) (typed : Typed.Module)
    (admits : ∀ name ∈ m.classNames, m.Admits name)
    (translated : translate ApiTables.standard m = .ok typed) :
    ∀ t ∈ typed.types, t.describesValue := by
  have drawn : Ty.Hereditary fun t => t.drawnFrom (fun name => m.Admits name) fun _ => false :=
    Ty.hereditary_drawnFrom fun name known => decide_eq_true (m.admits_builtin name known)
  have runs := typedModule_types drawn fun _ _ run =>
    yields_drawnFrom ApiTables.bindsPlaces_standard (admitsNames_of_outline admits run)
  obtain ⟨s, run⟩ := run_of_translate translated
  exact fun t ht => Ty.drawnFrom_mono (fun _ _ => rfl) t (runs.of_ok run t ht)

open Tree.Build in
/-- A class is called `Dictionary`, a list is sliced, grown and mapped, and sets are joined. -/
def shelves : Tree.Module :=
  ⟨[classDef "Dictionary" none [define "keys" ["self"] [ret (some (int 1))]],
    assign (name "own") (method (call (name "Dictionary") []) "keys" []),
    assign (name "xs") (list [name "own", int 2]),
    assign (name "last") (method (slice (name "xs") (some (int 0)) (some (int 1))) "pop" []),
    assign (name "sizes") (binOp (set [name "last"]) .bitOr (set [])),
    assign (name "named") (dict [(string "a", name "sizes")]),
    forLoop (name "n") (listComp (name "x") (name "x") (name "xs") [])
      [augAssign (name "xs") .add (list [name "n"])]]⟩

set_option maxRecDepth 100000 in
theorem types_describe_values_shelves : (∀ name ∈ shelves.classNames, shelves.Admits name) ∧
    ∃ typed, translate ApiTables.standard shelves = .ok typed ∧
      ∀ t ∈ typed.types, t.describesValue := by
  have admits : ∀ name ∈ shelves.classNames, shelves.Admits name := by decide
  have isOk : (translate ApiTables.standard shelves).isOk = true := by decide +kernel
  obtain ⟨typed, translated⟩ := exists_of_isOk isOk
  exact ⟨admits, typed, translated, types_describe_values _ typed admits translated⟩

open Tree.Build in
/-- `class List: pass`, `x = List()[0:1]`: a slice of an object of the class `List`, which binds no
element. -/
def listSliced : Tree.Module :=
  ⟨[classDef "List" none [pass],
    assign (name "x") (slice (call (name "List") []) (some (int 0)) (some (int 1)))]⟩

open Tree.Build in
/-- The keys of an exception that is called `Dictionary`. -/
def dictionaryAsked : Tree.Module :=
  ⟨[classDef "Dictionary" (some "Exception") [pass],
    assign (name "x") (method (name "Dictionary") "keys" [])]⟩

open Tree.Build in
/-- The union of an exception that is called `Set` and an empty set. -/
def setJoined : Tree.Module :=
  ⟨[classDef "Set" (some "Exception") [pass],
    assign (name "x") (method (name "Set") "union" [set []])]⟩

/-- Whether a module is translated with a type that describes no value. -/
def leaks (m : Tree.Module) : Bool :=
  match translate ApiTables.standard m with
  | .ok typed => typed.types.any fun t => !t.describesValue
  | .error _ => false

theorem exists_of_leaks {m : Tree.Module} (leak : leaks m) :
    ∃ typed, translate ApiTables.standard m = .ok typed ∧
      ∃ t ∈ typed.types, t.describesValue = false := by
  unfold leaks at leak
  split at leak
  · next typed translated =>
    obtain ⟨t, ht, fails⟩ := List.any_eq_true.mp leak
    exact ⟨typed, translated, t, ht, Bool.not_eq_eq_eq_not.mp fails⟩
  · cases leak

set_option maxRecDepth 100000 in
/-- Each of the three names leaks where it is not admitted. -/
theorem placeholders_leak :
    (∃ typed, translate ApiTables.standard listSliced = .ok typed ∧
      ∃ t ∈ typed.types, t.describesValue = false) ∧
    (∃ typed, translate ApiTables.standard dictionaryAsked = .ok typed ∧
      ∃ t ∈ typed.types, t.describesValue = false) ∧
    ∃ typed, translate ApiTables.standard setJoined = .ok typed ∧
      ∃ t ∈ typed.types, t.describesValue = false := by
  have sliced : leaks listSliced = true := by
    decide +kernel
  have asked : leaks dictionaryAsked = true := by
    decide +kernel
  have joined : leaks setJoined = true := by
    decide +kernel
  exact ⟨exists_of_leaks sliced, exists_of_leaks asked, exists_of_leaks joined⟩

end TreeTyper
