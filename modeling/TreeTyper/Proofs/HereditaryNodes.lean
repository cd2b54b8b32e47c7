import TreeTyper.Proofs.Filling
import TreeTyper.Proofs.Hereditary
import TreeTyper.Proofs.Matching
import TreeTyper.Proofs.Outline
import TreeTyper.Proofs.Parts

/-!
# Hereditary properties of nodes

When all types in the tables have a hereditary property, and the standard tables
answer with such types, every node over parts of such types has one.  The tables
keep the property when what is entered has it.

    s.AllTypes V → Makes api σ s free below called parts e → V e.type       (Makes.hereditary)
-/

namespace TreeTyper

open Ty (Hereditary)

variable {V : Ty → Prop} {h : Hierarchy}

theorem Hierarchy.isClass_of_method? {c f : String} {entry : MethodEntry}
    (declared : h.method? c f = some entry) : h.isClass c := by
  obtain ⟨info, found, -⟩ := Option.bind_eq_some_iff.mp declared
  rw [Hierarchy.isClass, Table.contains, found]
  rfl

/-! ## Bindings -/

namespace Bindings

/-- The placeholders stand for types with a property. -/
def AllTypes (V : Ty → Prop) (b : Bindings) : Prop := ∀ p t, b.get? p = some t → V t

/-- What one gives a meaning has a meaning under the other. -/
def Within (b b' : Bindings) : Prop := ∀ p, (b.get? p).isSome → (b'.get? p).isSome

theorem Within.refl (b : Bindings) : b.Within b := fun _ bound => bound

theorem Within.trans {b₁ b₂ b₃ : Bindings} (first : b₁.Within b₂) (rest : b₂.Within b₃) :
    b₁.Within b₃ :=
  fun p bound => rest p (first p bound)

theorem Within.bind (b : Bindings) (p : Placeholder) (t : Ty) : b.Within (b.bind p t) := by
  intro q bound
  by_cases same : q = p
  · rw [same, get?_bind_self]
    rfl
  · rwa [get?_bind_of_ne same]

theorem allTypes_empty : empty.AllTypes V := by
  intro p t bound
  cases p <;> cases bound

theorem allTypes_ofReceiver (H : Hereditary V) {t : Ty} (ht : V t) : (ofReceiver t).AllTypes V := by
  intro p bound found
  cases t with
  | dictionary k v =>
    obtain ⟨hk, hv⟩ := H.dictionary.mp ht
    cases p <;> cases found
    · exact hk
    · exact hv
  | list t =>
    cases p <;> cases found
    exact H.list.mp ht
  | set t =>
    cases p <;> cases found
    exact H.set.mp ht
  | array t n =>
    cases p <;> cases found
    exact H.array.mp ht
  | _ => cases p <;> cases found

theorem allTypes_start (H : Hereditary V) {receiver : Option Ty} (hReceiver : ∀ t ∈ receiver, V t) :
    (start receiver).AllTypes V := by
  cases receiver with
  | none => exact allTypes_empty
  | some t => exact allTypes_ofReceiver H (hReceiver t rfl)

namespace AllTypes

variable {b : Bindings} (all : b.AllTypes V)

include all

theorem bind (p : Placeholder) {t : Ty} (ht : V t) : (b.bind p t).AllTypes V := by
  intro q u bound
  by_cases same : q = p
  · rw [same, get?_bind_self] at bound
    cases bound
    exact ht
  · rw [get?_bind_of_ne same] at bound
    exact all q u bound

theorem receiverShape (H : Hereditary V) {t : Ty} (ht : V t) : V (b.receiverShape t) := by
  have slot : ∀ p, V ((b.get? p).getD .hole) := by
    intro p
    cases found : b.get? p with
    | none => exact H.hole
    | some u => exact all p u found
  cases t with
  | list _ => exact H.list.mpr (slot .element)
  | set _ => exact H.set.mpr (slot .element)
  | array _ _ => exact H.array.mpr (slot .element)
  | dictionary _ _ => exact H.dictionary.mpr ⟨slot .key, slot .value⟩
  | _ => exact ht

end AllTypes

end Bindings

/-! ## Signatures -/

namespace Ty.Hereditary

variable (H : Hereditary V)

include H

theorem matchArgument {name : String} {b b' : Bindings} {i : Nat} {param arg : Ty}
    (all : b.AllTypes V) (ha : V arg) (matched : matchArgument h name b i param arg = .ok b') :
    b'.AllTypes V ∧ b.Within b' := by
  unfold TreeTyper.matchArgument at matched
  split at matched
  · next p =>
    split at matched
    · cases matched
      exact ⟨all.bind p ha, .bind b p arg⟩
    · cases matched
      exact ⟨all.bind p ha, .bind b p arg⟩
    · next old _ found =>
      have hOld := all p old found
      unfold expectCompatible at matched
      split at matched
      · next merged joins =>
        have hMerged := H.compatible ha hOld joins
        cases matched
        split
        · exact ⟨all.bind p (H.fill hOld hMerged), .bind b p _⟩
        · exact ⟨all, .refl b⟩
      · cases matched
  · dsimp only at matched
    split at matched
    · cases matched
      exact ⟨all, .refl b⟩
    · cases matched

theorem matchArguments {name : String} {b b' : Bindings} {i : Nat} {params args : List Ty}
    (all : b.AllTypes V) (ha : ∀ t ∈ args, V t)
    (matched : matchArguments h name b i params args = .ok b') : b'.AllTypes V ∧ b.Within b' := by
  induction params generalizing b i args with
  | nil =>
    cases matched
    exact ⟨all, .refl _⟩
  | cons param params ih =>
    cases args with
    | nil =>
      cases matched
      exact ⟨all, .refl _⟩
    | cons arg args =>
      obtain ⟨hArg, hArgs⟩ := List.forall_mem_cons.mp ha
      unfold TreeTyper.matchArguments at matched
      cases first : TreeTyper.matchArgument h name b i param arg with
      | error cause =>
        rw [first] at matched
        cases matched
      | ok b₁ =>
        rw [first] at matched
        obtain ⟨all₁, within⟩ := H.matchArgument all hArg first
        obtain ⟨all', within'⟩ := ih all₁ hArgs matched
        exact ⟨all', within.trans within'⟩

/-- A match answers with the return type over bindings which are those of the receiver and more. -/
theorem matchSignature {signature : ApiSignature} {name : String} {receiver : Option Ty}
    {args : List Ty} {found : SignatureMatch} (hReceiver : ∀ t ∈ receiver, V t)
    (ha : ∀ t ∈ args, V t) (matched : matchSignature h signature name receiver args = .ok found) :
    (∃ b : Bindings, b.AllTypes V ∧ found.ret = signature.ret.substitute b ∧
      ∀ t ∈ receiver, (Bindings.ofReceiver t).Within b) ∧ ∀ t ∈ found.refined, V t := by
  obtain ⟨-, b, run, ret, refines⟩ := matchSignature_cases matched
  obtain ⟨all, within⟩ := H.matchArguments (Bindings.allTypes_start H hReceiver) ha run
  refine ⟨⟨b, all, ret, ?_⟩, fun t refined => ?_⟩
  · rintro t rfl
    exact within
  · obtain ⟨old, same, -, rfl, -⟩ := (refines t).mp refined
    have hOld := hReceiver old same
    exact H.fill hOld (all.receiverShape H hOld)

theorem matchParamsFrom {name : String} {i : Nat} {params args found : List Ty}
    (hp : ∀ t ∈ params, V t) (ha : ∀ t ∈ args, V t)
    (matched : matchParamsFrom h name i params args = .ok found) : ∀ t ∈ found, V t := by
  induction params generalizing args found i with
  | nil =>
    cases matched
    simp
  | cons param params ih =>
    cases args with
    | nil =>
      cases matched
      simp
    | cons arg args =>
      obtain ⟨t, ts, rfl, first, rest⟩ := matchParamsFrom_cons matched
      rw [List.forall_mem_cons] at hp ha ⊢
      refine ⟨?_, ih hp.2 ha.2 rest⟩
      rcases first with ⟨-, rfl⟩ | found
      · exact ha.1
      · exact H.compatible ha.1 hp.1 found

theorem matchParams {name : String} {params args found : List Ty} (hp : ∀ t ∈ params, V t)
    (ha : ∀ t ∈ args, V t) (matched : matchParams h params args name = .ok found) :
    ∀ t ∈ found, V t := by
  unfold TreeTyper.matchParams at matched
  split at matched
  · cases matched
  · exact H.matchParamsFrom hp ha matched

end Ty.Hereditary

namespace Translate

open Typed

/-! ## Stored and indexed types -/

section Slots

variable (H : Hereditary V) (classes : h.ClassesHave V)

include H

theorem hereditary_indexType {sequence index t : Ty} {source : Tree.Expr} (hs : V sequence)
    (found : indexType h sequence index source = .ok t) : V t := by
  unfold indexType at found
  extract_lets atInteger at found
  have element : ∀ elem, atInteger elem = .ok t → V elem → V t := by
    intro elem found he
    dsimp only [atInteger] at found
    split at found
    · cases found
      exact he
    · cases found
  split at found
  · exact element _ found (H.list.mp hs)
  · exact element _ found (H.array.mp hs)
  · split at found
    · cases found
      exact (H.dictionary.mp hs).2
    · cases found
  · split at found
    · cases found
    · next i _ =>
      split at found
      · next elem there =>
        cases found
        cases i with
        | ofNat n => exact H.tuple.mp hs _ (List.mem_of_getElem? there)
        | negSucc n => cases there
      · cases found
  · split at found
    · exact element _ found H.string
    · cases found

include classes

theorem hereditary_store {slot value t : Ty} (hs : V slot) (hv : V value)
    (stored : store h slot value = some t) : V t := by
  unfold store at stored
  split at stored
  · exact H.unify classes hs hv stored
  · obtain ⟨-, -, rfl⟩ := Option.map_eq_some_iff.mp stored
    exact hs

theorem hereditary_storeAt {sequence index value t : Ty} (hs : V sequence) (hi : V index)
    (hv : V value) (kept : storeAt h sequence index value = .ok t) : V t := by
  cases storeAt_eq_ok_iff.mp kept with
  | list _ found => exact H.list.mpr (hereditary_store H classes (H.list.mp hs) hv found)
  | array n _ found => exact H.array.mpr (hereditary_store H classes (H.array.mp hs) hv found)
  | dictionary foundKey found =>
    obtain ⟨hKey, hSlot⟩ := H.dictionary.mp hs
    exact H.dictionary.mpr ⟨hereditary_store H classes hKey hi foundKey,
      hereditary_store H classes hSlot hv found⟩

theorem hereditary_gathered {given : List Ty} {t : Ty} (hg : ∀ g ∈ given, V g)
    (gathered : Gathered h given t) : V t := by
  induction gathered with
  | hole => exact H.hole
  | given known => exact hg _ known
  | compatible _ _ found ihLeft ihRight => exact H.compatible ihLeft ihRight found
  | unify _ _ found ihLeft ihRight => exact H.unify classes ihLeft ihRight found

theorem hereditary_refinement {old t : Ty} {evidence : List Ty} (ho : V old)
    (he : ∀ e ∈ evidence, V e) (refines : Refinement h old evidence t) : V t := by
  cases refines with
  | matched found refined =>
    have hOld : ∀ t ∈ some old, V t := fun t same => Option.some.inj same ▸ ho
    exact (H.matchSignature hOld he found).2 _ refined
  | stored kept => exact hereditary_storeAt H classes ho (he _ (by simp)) (he _ (by simp)) kept

end Slots

theorem hereditary_taken (H : Hereditary V) {sequences : List Ty} {t : Ty}
    (hs : ∀ t ∈ sequences, V t) (taken : Taken sequences t) : V t := by
  cases taken with
  | index => exact H.int
  | element listed iterates => exact H.element (hs _ listed) iterates
  | value listed => exact (H.dictionary.mp (hs _ listed)).2

/-! ## Bodies -/

section Bodies

variable {key : DefKey} (self : ∀ className ∈ key.className?, V (.atom className))

include self

theorem hereditary_bodyBindings (names : List String) {params : List Ty} (hp : ∀ t ∈ params, V t) :
    ∀ b ∈ bodyBindings key names params, V b.2 := by
  intro b known
  rcases List.mem_append.mp known with known | known
  · exact hp b.2 (List.of_mem_zip known).2
  · split at known
    · next className owner =>
      rw [List.mem_singleton.mp known]
      exact self className owner
    · cases known

theorem hereditary_returnAfter (H : Hereditary V) {found : Signature} (hr : V found.ret) :
    V (returnAfter key found) := by
  have slot : V (if found.hasReturn then found.ret else .void) := by
    split
    · exact hr
    · exact H.void
  unfold returnAfter
  split
  · split
    · exact self _ rfl
    · exact slot
  · exact slot

omit self in
theorem hereditary_mergeReturn (H : Hereditary V) {name : String} {current found merged : Ty}
    (hc : V current) (hf : V found) (merges : mergeReturn name current found = .ok merged) :
    V merged := by
  unfold mergeReturn at merges
  split at merges
  · cases merges
  · cases merges
    exact H.fill hc hf

end Bodies

/-! ## Tables -/

/-- All types in the tables have a property. -/
structure State.AllTypes (V : Ty → Prop) (s : State) : Prop where
  scopes : ∀ scope ∈ s.scopes.arena, ∀ name ty, scope.bindings.find? name = some ty → V ty
  attributes : ∀ c, ∀ a ∈ s.hierarchy.ownAttributes c, V a.ty
  cells : ∀ cell, V (s.cells.get cell).toTy

variable {s s' : State}

/-- Before the first call nothing but constants has types, and values and classes build theirs. -/
theorem State.Untouched.allTypes (untouched : s.Untouched) (H : Hereditary V)
    (classes : s.hierarchy.ClassesHave V) : s.AllTypes V where
  scopes := by
    obtain ⟨bindings, same, known⟩ := untouched.scopes
    rw [same]
    simp only [List.mem_singleton, forall_eq]
    exact fun name ty bound => known name ty bound V H classes
  attributes c a known := by
    rw [untouched.ownAttributes_eq] at known
    cases known
  cells cell := by
    obtain ⟨arity, same⟩ := untouched.get_cells cell
    rw [same]
    exact H.function.mpr ⟨fun t ht => List.eq_of_mem_replicate ht ▸ H.hole, H.hole⟩

theorem hereditary_resolveIn {arena : List Scope} {id owner : ScopeId} {name : String} {ty : Ty}
    (all : ∀ scope ∈ arena, ∀ name ty, scope.bindings.find? name = some ty → V ty)
    (resolved : Scopes.resolveIn name arena id = some (owner, ty)) : V ty := by
  induction arena generalizing id with
  | nil => cases resolved
  | cons scope older ih =>
    have allOlder := fun scope hscope => all scope (List.mem_cons_of_mem _ hscope)
    rw [Scopes.resolveIn] at resolved
    split at resolved
    · split at resolved
      · next bound =>
        cases resolved
        exact all _ List.mem_cons_self name ty bound
      · obtain ⟨parent, -, resolved⟩ := Option.bind_eq_some_iff.mp resolved
        exact ih allOlder resolved
    · exact ih allOlder resolved

theorem mem_of_find?_ofList {bindings : List (String × Ty)} {name : String} {ty : Ty}
    (found : (Table.ofList bindings).find? name = some ty) : (name, ty) ∈ bindings := by
  rw [Table.find?_ofList] at found
  obtain ⟨⟨name', _⟩, last, rfl⟩ := Option.map_eq_some_iff.mp found
  have same : name' = name := by
    simpa using List.find?_some last
  rw [← same]
  exact List.mem_reverse.mp (List.mem_of_find?_eq_some last)

theorem hereditary_defineIn {arena : List Scope} {id : ScopeId} {name : String} {ty : Ty}
    (all : ∀ scope ∈ arena, ∀ name ty, scope.bindings.find? name = some ty → V ty) (ht : V ty) :
    ∀ scope ∈ Scopes.defineIn name ty arena id, ∀ name ty,
      scope.bindings.find? name = some ty → V ty := by
  induction arena with
  | nil => exact all
  | cons scope older ih =>
    obtain ⟨first, others⟩ := List.forall_mem_cons.mp all
    rw [Scopes.defineIn]
    split
    · refine List.forall_mem_cons.mpr ⟨fun other t bound => ?_, others⟩
      rw [Table.find?_insert] at bound
      split at bound
      · cases bound
        exact ht
      · exact first other t bound
    · exact List.forall_mem_cons.mpr ⟨first, ih others⟩

theorem mem_updateIn {name : String} {ty : Ty} {makePublic : Bool} {a : Attribute}
    {attributes : List Attribute} (known : a ∈ Hierarchy.updateIn name ty makePublic attributes) :
    a.ty = ty ∨ a ∈ attributes := by
  induction attributes with
  | nil => cases known
  | cons first rest ih =>
    rw [Hierarchy.updateIn] at known
    split at known
    · rcases List.mem_cons.mp known with rfl | known
      · exact .inl rfl
      · exact .inr (List.mem_cons_of_mem _ known)
    · rcases List.mem_cons.mp known with rfl | known
      · exact .inr List.mem_cons_self
      · exact (ih known).imp id (List.mem_cons_of_mem _)

/-- The attributes of a class after those of one class have changed. -/
theorem mem_ownAttributes_modify {h : Hierarchy} {c d : String} {f : ClassInfo → ClassInfo}
    {g : List Attribute → List Attribute} (changes : ∀ info, (f info).attributes = g info.attributes)
    {a : Attribute}
    (known : a ∈ Hierarchy.ownAttributes { h with classes := h.classes.modify c f } d) :
    a ∈ h.ownAttributes d ∨ a ∈ g (h.ownAttributes d) := by
  unfold Hierarchy.ownAttributes at known ⊢
  dsimp only at known
  rw [Table.find?_modify] at known
  split at known
  · next same =>
    subst same
    cases found : h.classes.find? d with
    | none =>
      rw [found] at known
      exact .inl known
    | some info =>
      rw [found] at known
      exact .inr (changes info ▸ known)
  · exact .inl known

/-- What a cell holds after one of them was written. -/
theorem get_set_cases (cells : Cells) (id id' : CellId) (signature : Signature) :
    (cells.set id signature).get id' = signature ∧ id' = id ∨
      (cells.set id signature).get id' = cells.get id' := by
  rw [Cells.get, Cells.written_set]
  split
  · next same => exact .inl ⟨rfl, same.1⟩
  · exact .inr rfl

namespace State.AllTypes

variable (all : s.AllTypes V)

include all

/-! ### What is read -/

theorem lookup {id : ScopeId} {name : String} {ty : Ty}
    (found : s.scopes.lookup id name = some ty) : V ty := by
  obtain ⟨⟨owner, ty⟩, resolved, rfl⟩ := Option.map_eq_some_iff.mp found
  exact hereditary_resolveIn all.scopes resolved

theorem lookupLocal {id : ScopeId} {name : String} {ty : Ty}
    (found : s.scopes.lookupLocal id name = some ty) : V ty := by
  obtain ⟨scope, there, bound⟩ := Option.bind_eq_some_iff.mp found
  unfold Scopes.scope? at there
  split at there
  · exact all.scopes scope (List.mem_of_getElem? there) name ty bound
  · cases there

/-- The type that a name of one scope has so far. -/
theorem slot (H : Hereditary V) (id : ScopeId) (name : String) :
    V ((s.scopes.lookupLocal id name).getD .hole) := by
  cases found : s.scopes.lookupLocal id name with
  | none => exact H.hole
  | some ty => exact all.lookupLocal found

theorem «attribute» {className name owner : String} {entry : Attribute}
    (found : s.hierarchy.attribute? className name = some (owner, entry)) : V entry.ty := by
  obtain ⟨c, -, found⟩ := List.exists_of_findSome?_eq_some found
  obtain ⟨a, known, same⟩ := Option.map_eq_some_iff.mp found
  cases same
  exact all.attributes owner entry (List.mem_of_find?_eq_some known)

theorem params_ret (H : Hereditary V) (cell : CellId) :
    (∀ t ∈ (s.cells.get cell).params, V t) ∧ V (s.cells.get cell).ret :=
  H.function.mp (all.cells cell)

/-! ### What is changed -/

theorem congr (scopes : s'.scopes = s.scopes) (hierarchy : s'.hierarchy = s.hierarchy)
    (cells : s'.cells = s.cells) : s'.AllTypes V := by
  refine ⟨?_, ?_, ?_⟩
  · rw [scopes]
    exact all.scopes
  · rw [hierarchy]
    exact all.attributes
  · rw [cells]
    exact all.cells

theorem bound (id : ScopeId) (name : String) {ty : Ty} (ht : V ty) : (s.bound id name ty).AllTypes V :=
  { all with scopes := hereditary_defineIn all.scopes ht }

theorem opened (parent : ScopeId) {bindings : List (String × Ty)} (hb : ∀ b ∈ bindings, V b.2) :
    (s.opened parent bindings).AllTypes V := by
  refine { all with scopes := List.forall_mem_cons.mpr ⟨fun name ty found => ?_, all.scopes⟩ }
  exact hb (name, ty) (mem_of_find?_ofList found)

theorem closed (mark : Nat) : (s.closed mark).AllTypes V :=
  { all with scopes := fun scope hscope => all.scopes scope (List.mem_of_mem_drop hscope) }

theorem withSignature (cell : CellId) {signature : Signature} (hs : V signature.toTy) :
    (s.withSignature cell signature).AllTypes V := by
  refine { all with cells := fun id => ?_ }
  rcases get_set_cases s.cells cell id signature with ⟨same, -⟩ | same
  · change V ((s.cells.set cell signature).get id).toTy
    rwa [same]
  · change V ((s.cells.set cell signature).get id).toTy
    rw [same]
    exact all.cells id

theorem withParams (H : Hereditary V) (cell : CellId) {params : List Ty} (hp : ∀ t ∈ params, V t) :
    (s.withSignature cell { s.cells.get cell with params }).AllTypes V :=
  all.withSignature cell (H.function.mpr ⟨hp, (all.params_ret H cell).2⟩)

theorem withReturn (H : Hereditary V) (cell : CellId) {ret : Ty} (hr : V ret) :
    (s.withSignature cell { s.cells.get cell with ret }).AllTypes V :=
  all.withSignature cell (H.function.mpr ⟨(all.params_ret H cell).1, hr⟩)

theorem updateAttribute (owner name : String) (makePublic : Bool) {ty : Ty} (ht : V ty) :
    (s.withHierarchy (s.hierarchy.updateAttribute owner name ty makePublic)).AllTypes V := by
  refine { all with attributes := fun c a known => ?_ }
  rcases mem_ownAttributes_modify (fun _ => rfl) known with known | known
  · exact all.attributes c a known
  · rcases mem_updateIn known with rfl | known
    · exact ht
    · exact all.attributes c a known

theorem registerAttribute (className name : String) (isPublic : Bool) {ty : Ty} (ht : V ty) :
    (s.withHierarchy
      (s.hierarchy.registerAttribute className ⟨name, ty, isPublic⟩)).AllTypes V := by
  refine { all with attributes := fun c a known => ?_ }
  have added := mem_ownAttributes_modify (g := (· ++ [⟨name, ty, isPublic⟩])) (fun _ => rfl) known
  rcases added with known | known
  · exact all.attributes c a known
  · rcases List.mem_append.mp known with known | isNew
    · exact all.attributes c a known
    · rw [List.mem_singleton.mp isNew]
      exact ht

theorem refined (σ : Site) (node : Expr) {ty : Ty} (ht : V ty) :
    (s.refined σ node ty).AllTypes V := by
  have viaAttribute : ∀ className name, (s.withAttribute className name ty).AllTypes V := by
    intro className name
    unfold State.withAttribute
    split
    · exact all.updateAttribute _ name false ht
    · exact all
  unfold State.refined
  split
  · next name _ =>
    unfold Scopes.assign
    split
    · exact all.bound _ name ht
    · exact all.bound _ name ht
  · split
    · exact viaAttribute ..
    · exact all
  · exact viaAttribute ..
  · exact all

/-! ### Bodies -/

variable {key : DefKey} (self : ∀ className ∈ key.className?, V (.atom className))

include self

theorem entered (H : Hereditary V) {cell : CellId} {definition : Tree.FunctionDef}
    (definitions : Definitions) {params : List Ty} (hp : ∀ t ∈ params, V t) :
    (s.entered key cell definition definitions params).AllTypes V := by
  have begun : (s.begun key cell definitions params).AllTypes V :=
    (all.withParams H cell hp).congr rfl rfl rfl
  exact begun.opened _ (hereditary_bodyBindings self _ hp)

theorem finished (H : Hereditary V) (cell : CellId) (names : List String) (block : List Stmt) :
    (s.finished key cell names block).AllTypes V :=
  (all.withReturn H cell (hereditary_returnAfter self H (all.params_ret H cell).2)).congr rfl rfl rfl

end State.AllTypes

/-! ## Nodes -/

theorem signature?_of_signatureOf {api : ApiTables} {owner name : String} {signature : ApiSignature}
    (signed : signatureOf api owner name = .ok signature) :
    api.signature? owner name = some signature := by
  unfold signatureOf at signed
  split at signed
  · next known =>
    cases signed
    exact known
  · cases signed

/-- The names of a hierarchy have a property as types, and the standard tables answer a call with
such a type if the arguments have it. -/
structure Yields (V : Ty → Prop) (api : ApiTables) (h : Hierarchy) : Prop where
  classes : h.ClassesHave V
  exceptions : ∀ name, h.isException name → V (.atom name)
  functions : ∀ {h' space function signature name args found},
    Reached api h (.call space function) → signatureOf api space function = .ok signature →
    (∀ t ∈ args, V t) → matchSignature h' signature name none args = .ok found → V found.ret
  methods : ∀ {h' expansion owner message signature name args found} {receiver : Ty},
    Reached api h expansion → expansion.method? = some (owner, message) →
    signatureOf api owner message = .ok signature → receiver.head = owner → V receiver →
    (∀ t ∈ args, V t) → matchSignature h' signature name (some receiver) args = .ok found →
    V found.ret

theorem Yields.sameShape {api : ApiTables} {h h' : Hierarchy} (yields : Yields V api h)
    (same : h.SameShape h') : Yields V api h' where
  classes name isClass := yields.classes name (same.isClass_eq name ▸ isClass)
  exceptions name isException := yields.exceptions name (same.isException_eq name ▸ isException)
  functions reached := yields.functions (reached.sameShape same.symm)
  methods reached := yields.methods (reached.sameShape same.symm)

section Makes

variable {api : ApiTables} {σ : Site} {free : String → Prop} {below : List String → Expr → Prop}
  {called : DefKey → CellId → List Ty → Ty → Prop} {parts : List Expr} {e : Expr}

/-- Nodes over parts with a hereditary property have it. -/
theorem Makes.hereditary (H : Hereditary V) (all : s.AllTypes V) (yields : Yields V api s.hierarchy)
    (hCalls : ∀ {key cell args ret}, called key cell args ret → V ret)
    (hParts : ∀ p ∈ parts, V p.type) (made : Makes api σ s free below called parts e) :
    V e.type := by
  have hTypes : ∀ {nodes : List Expr}, (∀ p ∈ nodes, p ∈ parts) → ∀ t ∈ types nodes, V t := by
    intro nodes within t ht
    obtain ⟨node, hnode, rfl⟩ := List.mem_map.mp ht
    exact hParts node (within node hnode)
  -- what elements are gathered to is built from their types and from classes
  have gather : ∀ {given t}, (∀ g ∈ given, V g) → Gathered s.hierarchy given t → V t :=
    hereditary_gathered H yields.classes
  cases made with
  | literal literal =>
    cases literal with
    | int _ => exact H.int
    | float _ => exact H.float
    | string _ => exact H.string
    | boolean _ => exact H.boolean
    | null => exact H.void
  | this _ bound => exact all.lookup bound
  | «variable» _ bound => exact all.lookup bound
  | function _ _ => exact all.cells _
  | typename isType =>
    rcases Bool.or_eq_true_iff.mp isType with isClass | isException
    · exact yields.classes _ isClass
    · exact yields.exceptions _ isException
  | instanceVar _ found => exact all.attribute found
  | attr found => exact all.attribute found
  | @binary op left right e made =>
    obtain ⟨result, typed, ⟨-, rfl⟩ | ⟨receiver, arg, message, -, -, rfl⟩⟩ := binary_cases made
    · exact H.binaryResult (hParts left (by simp)) (hParts right (by simp)) typed
    · exact H.binaryResult (hParts left (by simp)) (hParts right (by simp)) typed
  | @test value e made _ =>
    rcases testable_cases made with rfl | ⟨-, rfl⟩ | ⟨-, rfl⟩ | rfl
    · exact hParts _ (by simp)
    · exact H.boolean
    · exact H.boolean
    · exact H.boolean
  | connect _ _ => exact H.boolean
  | @negative value _ => exact hParts value (by simp)
  | not _ => exact H.boolean
  | comparison _ => exact H.boolean
  | list gathered => exact H.list.mpr (gather (hTypes fun _ => id) gathered)
  | set gathered => exact H.set.mpr (gather (hTypes fun _ => id) gathered)
  | @dictionary pairs key value keys values =>
    refine H.dictionary.mpr ⟨gather (hTypes fun node hnode => ?_) keys,
      gather (hTypes fun node hnode => ?_) values⟩
    -- keys and values are both among the parts of the node
    · obtain ⟨pair, hpair, rfl⟩ := List.mem_map.mp hnode
      exact List.mem_flatMap.mpr ⟨pair, hpair, by simp⟩
    · obtain ⟨pair, hpair, rfl⟩ := List.mem_map.mp hnode
      exact List.mem_flatMap.mpr ⟨pair, hpair, by simp⟩
  | tuple => exact H.tuple.mpr (hTypes fun _ => id)
  | array gathered => exact H.array.mpr (gather (hTypes fun _ => id) gathered)
  | index found => exact hereditary_indexType H (hParts _ (by simp)) found
  | standardCall reached signed matched =>
    exact yields.functions reached signed (hTypes fun _ => id) matched
  | @standardMethodCall receiver _ _ _ _ _ _ _ args _ reached asks headed signed matched =>
    have hArgs : ∀ t ∈ types args, V t := hTypes fun node hnode => by simp [hnode]
    exact yields.methods reached asks signed headed (hParts receiver (by simp)) hArgs matched
  | length _ => exact H.int
  | @regexp pattern e made _ =>
    rcases toRegexp_cases made with rfl | ⟨value, rfl⟩ | rfl
    · exact hParts _ (by simp)
    · exact H.regexp
    · exact H.regexp
  | valueCall type _ _ =>
    have hCallee := hParts _ List.mem_cons_self
    rw [type] at hCallee
    exact (H.function.mp hCallee).2
  | functionCall _ _ called => exact hCalls called
  | methodCall _ called => exact hCalls called
  | thisMethodCall _ _ called => exact hCalls called
  | newInstance declared _ => exact yields.classes _ (Hierarchy.isClass_of_method? declared)
  | plainInstance isClass _ => exact yields.classes _ isClass
  | @iterate _ _ _ block _ => exact H.list.mpr (hParts block (by simp))

/-- The variables of a new comprehension take what its sequences give. -/
theorem Makes.taken (made : Makes api σ s free below called parts e) :
    ∀ b ∈ e.binders, Taken (types parts) b.type := by
  have none : ∀ {kind : ExprKind} {type : Ty}, (⟨kind, type⟩ : Expr).isIterate = false →
      ∀ b ∈ (⟨kind, type⟩ : Expr).binders, Taken (types parts) b.type := by
    intro kind type other b hb
    cases kind with
    | iterate => cases other
    | _ => cases hb
  cases made with
  | literal literal => cases literal <;> exact none rfl
  | binary made =>
    obtain ⟨result, -, ⟨-, rfl⟩ | ⟨receiver, arg, message, -, -, rfl⟩⟩ := binary_cases made
    · exact none rfl
    · exact none rfl
  | test made differs =>
    rcases testable_cases made with rfl | ⟨-, rfl⟩ | ⟨-, rfl⟩ | rfl
    · exact absurd rfl differs
    · exact none rfl
    · exact none rfl
    · exact none rfl
  | regexp made differs =>
    rcases toRegexp_cases made with rfl | ⟨value, rfl⟩ | rfl
    · exact absurd rfl differs
    · exact none rfl
    · exact none rfl
  | iterate taken =>
    rw [List.append_assoc]
    exact fun b hb => (taken b hb).mono (List.map_subset _ (List.subset_append_left _ _))
  | _ => exact none rfl

/-- All types in a new node have a hereditary property if all those in its parts have it. -/
theorem Makes.hereditary_nodeTypes (H : Hereditary V) (all : s.AllTypes V)
    (yields : Yields V api s.hierarchy)
    (hCalls : ∀ {key cell args ret}, called key cell args ret → V ret)
    (hParts : ∀ p ∈ parts, ∀ t ∈ p.nodeTypes, V t) (made : Makes api σ s free below called parts e) :
    ∀ t ∈ e.nodeTypes, V t := by
  have hRoots : ∀ p ∈ parts, V p.type := fun p hp =>
    (Expr.forall_nodeTypes.mp (hParts p hp) p p.mem_nodes_self).1
  refine Expr.forall_nodeTypes.mpr fun x hx => ?_
  rcases made.from_nodes hx with rfl | auxiliary | ⟨p, hp, hx⟩
  · refine ⟨made.hereditary H all yields hCalls hRoots, fun b hb => ?_⟩
    exact hereditary_taken H (List.forall_mem_map.mpr hRoots) (made.taken b hb)
  · cases auxiliary with
    | zero => exact ⟨H.int, nofun⟩
    | length _ => exact ⟨H.int, nofun⟩
    | argument _ => exact ⟨H.array.mpr H.string, nofun⟩
    | function _ _ => exact ⟨all.cells _, nofun⟩
  · exact Expr.forall_nodeTypes.mp (hParts p hp) x hx

end Makes

end Translate

end TreeTyper
