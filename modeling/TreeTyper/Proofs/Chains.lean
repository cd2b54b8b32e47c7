import TreeTyper.Proofs.Caller.Scopes
import TreeTyper.Proofs.PlainNodes

/-!
# Chains of scopes

Looking a name up goes from a scope to its parent until a scope binds the name, so
the owner of a name depends only on the parents and on which names are bound.  The
chain of a scope of a body reaches the scope of the body and then the module scope:
a name that the body binds belongs to no scope outside of it.

    s.resolve id name = the scope id if it binds the name, else what its parent says   (resolve_eq)
    same parents, same names → same owner                                        (owner_congr)
-/

namespace TreeTyper.Scopes

variable {s s' : Scopes} {id body : Nat} {name : String} {ty : Ty}

/-! ## One scope -/

theorem scope?_cons (scope : Scope) (older : List Scope) (id : ScopeId) :
    scope? ⟨scope :: older⟩ id = if id = older.length then some scope else scope? ⟨older⟩ id := by
  unfold scope? size
  simp only [List.length_cons]
  rcases Nat.lt_trichotomy id older.length with below | here | above
  · have index : older.length + 1 - 1 - id = (older.length - 1 - id) + 1 := by omega
    rw [if_pos (Nat.lt_succ_of_lt below), if_neg (Nat.ne_of_lt below), if_pos below, index,
      List.getElem?_cons_succ]
  · rw [here, if_pos (Nat.lt_succ_self _), if_pos rfl]
    simp
  · rw [if_neg (Nat.not_lt_of_le above), if_neg (Nat.ne_of_gt above),
      if_neg (Nat.not_lt_of_lt above)]

theorem scope?_eq_none (above : s.size ≤ id) : s.scope? id = none :=
  if_neg (Nat.not_lt_of_le above)

def parent? (s : Scopes) (id : ScopeId) : Option ScopeId := (s.scope? id).bind (·.parent)

/-- A scope that binds a name is open. -/
theorem lt_size_of_lookupLocal (found : s.lookupLocal id name = some ty) : id < s.size := by
  refine Nat.lt_of_not_le fun above => ?_
  rw [lookupLocal, scope?_eq_none above] at found
  cases found

/-! ## Changing -/

theorem scope?_define (s : Scopes) (id id' : Nat) (name : String) (ty : Ty) :
    (s.define id name ty).scope? id' =
      if id' = id then
        (s.scope? id').map fun scope => { scope with bindings := scope.bindings.insert name ty }
      else s.scope? id' := by
  obtain ⟨arena⟩ := s
  unfold define
  induction arena with
  | nil => split <;> rfl
  | cons scope older ih =>
    rw [defineIn]
    by_cases here : id = older.length
    · rw [if_pos here, scope?_cons, scope?_cons, here]
      by_cases same : id' = older.length
      · simp [same]
      · simp [same]
    · rw [if_neg here, scope?_cons, scope?_cons, length_defineIn, ih]
      by_cases same : id' = older.length
      · have differs : id' ≠ id := fun other => here (other.symm.trans same)
        rw [if_pos same, if_pos same, if_neg differs]
      · rw [if_neg same, if_neg same]

theorem parent?_define (s : Scopes) (id id' : Nat) (name : String) (ty : Ty) :
    (s.define id name ty).parent? id' = s.parent? id' := by
  rw [parent?, parent?, scope?_define]
  split
  · cases s.scope? id' <;> rfl
  · rfl

theorem lookupLocal_define_self (alive : id < s.size) (name : String) (ty : Ty) :
    (s.define id name ty).lookupLocal id name = some ty := by
  obtain ⟨scope, found⟩ : ∃ scope, s.scope? id = some scope := by
    have index : s.size - 1 - id < s.arena.length := by
      unfold size at *
      omega
    exact ⟨_, (if_pos alive).trans (List.getElem?_eq_getElem index)⟩
  rw [lookupLocal, scope?_define, if_pos rfl, found]
  exact Table.find?_insert_self ..

theorem lookupLocal_define_other {name' : String} (differs : name' ≠ name) (s : Scopes)
    (id id' : Nat) (ty : Ty) :
    (s.define id name ty).lookupLocal id' name' = s.lookupLocal id' name' := by
  rw [lookupLocal, lookupLocal, scope?_define]
  split
  · cases s.scope? id' with
    | none => rfl
    | some scope => exact Table.find?_insert_of_ne differs ..
  · rfl

theorem scope?_child (s : Scopes) (parent : ScopeId) (bindings : List (String × Ty))
    (id : ScopeId) :
    (s.child parent bindings).1.scope? id =
      if id = s.size then some ⟨Table.ofList bindings, some parent⟩ else s.scope? id :=
  scope?_cons ..

theorem parent?_child_of_ne (differs : id ≠ s.size) (parent : ScopeId)
    (bindings : List (String × Ty)) : (s.child parent bindings).1.parent? id = s.parent? id := by
  rw [parent?, parent?, scope?_child, if_neg differs]

/-- A scope that has a parent keeps it when another one is opened. -/
theorem parent?_child_of_some {up : ScopeId} (inside : s.parent? id = some up) (parent : ScopeId)
    (bindings : List (String × Ty)) : (s.child parent bindings).1.parent? id = some up := by
  have alive : id ≠ s.size := by
    rintro rfl
    rw [parent?, scope?_eq_none (Nat.le_refl _)] at inside
    cases inside
  rw [parent?_child_of_ne alive, inside]

theorem parent?_child_self (s : Scopes) (parent : ScopeId) (bindings : List (String × Ty)) :
    (s.child parent bindings).1.parent? s.size = some parent := by
  rw [parent?, scope?_child, if_pos rfl]
  rfl

theorem lookupLocal_child_of_ne (differs : id ≠ s.size) (parent : ScopeId)
    (bindings : List (String × Ty)) (name : String) :
    (s.child parent bindings).1.lookupLocal id name = s.lookupLocal id name := by
  rw [lookupLocal, lookupLocal, scope?_child, if_neg differs]

theorem lookupLocal_child_self (s : Scopes) (parent : ScopeId) (bindings : List (String × Ty))
    (name : String) :
    (s.child parent bindings).1.lookupLocal s.size name =
      (Table.ofList bindings).find? name := by
  rw [lookupLocal, scope?_child, if_pos rfl]
  rfl

theorem size_discard {mark : Nat} (le : mark ≤ s.size) : (s.discard mark).size = mark := by
  change (s.arena.drop (s.size - mark)).length = mark
  rw [List.length_drop]
  unfold size at *
  omega

theorem scope?_discard {mark : Nat} (le : mark ≤ s.size) (id : Nat) :
    (s.discard mark).scope? id = if id < mark then s.scope? id else none := by
  unfold scope?
  rw [size_discard le]
  split
  · next below =>
    rw [if_pos (Nat.lt_of_lt_of_le below le)]
    have index : s.size - mark + (mark - 1 - id) = s.size - 1 - id := by
      have below : id < mark := below
      omega
    rw [← index]
    exact List.getElem?_drop
  · rfl

theorem parent?_discard {mark : Nat} (le : mark ≤ s.size) (below : id < mark) :
    (s.discard mark).parent? id = s.parent? id := by
  rw [parent?, parent?, scope?_discard le, if_pos below]

theorem lookupLocal_discard {mark : Nat} (le : mark ≤ s.size) (below : id < mark) (name : String) :
    (s.discard mark).lookupLocal id name = s.lookupLocal id name := by
  rw [lookupLocal, lookupLocal, scope?_discard le, if_pos below]

theorem scope?_discard_above {mark : Nat} (le : mark ≤ s.size) (above : mark ≤ id) :
    (s.discard mark).scope? id = none := by
  rw [scope?_discard le, if_neg (Nat.not_lt_of_le above)]

/-! ## Parents -/

/-- The parents of the open scopes, the newest scope first. -/
def links (s : Scopes) : List (Option ScopeId) := s.arena.map (·.parent)

theorem length_links (s : Scopes) : s.links.length = s.size := List.length_map _

/-- As many scopes are open when the parents are the same. -/
theorem size_eq_of_links {s s' : Scopes} (same : s'.links = s.links) : s'.size = s.size := by
  rw [← length_links, same, length_links]

@[simp] theorem links_child (s : Scopes) (parent : ScopeId) (bindings : List (String × Ty)) :
    (s.child parent bindings).1.links = some parent :: s.links := rfl

theorem links_discard (s : Scopes) (mark : Nat) :
    (s.discard mark).links = s.links.drop (s.size - mark) := List.map_drop ..

theorem links_defineIn (name : String) (ty : Ty) (arena : List Scope) (id : ScopeId) :
    (defineIn name ty arena id).map (·.parent) = arena.map (·.parent) := by
  induction arena with
  | nil => rfl
  | cons scope older ih =>
    rw [defineIn]
    split
    · rfl
    · rw [List.map_cons, List.map_cons, ih]

@[simp] theorem links_define (s : Scopes) (id : ScopeId) (name : String) (ty : Ty) :
    (s.define id name ty).links = s.links := links_defineIn ..

@[simp] theorem links_assign (s : Scopes) (id : ScopeId) (name : String) (ty : Ty) :
    (s.assign id name ty).links = s.links := by
  unfold assign
  split
  · exact links_define ..
  · exact links_define ..

/-- A scope that is opened inside others and closed again leaves them as they were. -/
theorem links_discard_child {s s' : Scopes} {parent : ScopeId} {bindings : List (String × Ty)}
    (inside : s'.links = (s.child parent bindings).1.links) :
    (s'.discard s.size).links = s.links := by
  have size := size_eq_of_links inside
  rw [size_child] at size
  rw [links_discard, inside, size, links_child, Nat.add_sub_cancel_left]
  rfl

/-- Every scope is inside an older one. -/
def Grounded (s : Scopes) : Prop := ∀ id up, s.parent? id = some up → up < id

theorem parent?_eq_links (s : Scopes) (id : ScopeId) :
    s.parent? id =
      if id < s.links.length then (s.links[s.links.length - 1 - id]?).join else none := by
  rw [length_links, parent?, scope?]
  split
  · rw [links, List.getElem?_map]
    cases s.arena[s.size - 1 - id]? <;> rfl
  · rfl

theorem parent?_congr (same : s'.links = s.links) (id : ScopeId) : s'.parent? id = s.parent? id := by
  rw [parent?_eq_links, same, ← parent?_eq_links]

theorem Grounded.congr (grounded : s.Grounded) (same : s'.links = s.links) : s'.Grounded := by
  intro id up parent
  rw [parent?_congr same] at parent
  exact grounded id up parent

theorem Grounded.child {s : Scopes} (grounded : s.Grounded) {parent : ScopeId}
    (alive : s.isAlive parent) (bindings : List (String × Ty)) :
    (s.child parent bindings).1.Grounded := by
  intro id up inside
  by_cases newest : id = s.size
  · rw [newest, parent?_child_self] at inside
    cases inside
    rw [newest]
    exact of_decide_eq_true alive
  · rw [parent?_child_of_ne newest] at inside
    exact grounded id up inside

/-- The module scope alone. -/
theorem grounded_singleton (bindings : Table String Ty) : Grounded ⟨[⟨bindings, none⟩]⟩ := by
  intro id up inside
  rw [parent?, scope?_cons] at inside
  split at inside
  · cases inside
  · cases inside

/-! ## Looking up -/

theorem resolveIn_eq_none {arena : List Scope} (above : arena.length ≤ id) :
    resolveIn name arena id = none := by
  induction arena with
  | nil => rfl
  | cons scope older ih =>
    rw [resolveIn, if_neg (Nat.ne_of_gt above)]
    exact ih (Nat.le_of_succ_le above)

theorem resolve_eq (s : Scopes) (id : ScopeId) (name : String) :
    s.resolve id name =
      match s.lookupLocal id name with
      | some ty => some (id, ty)
      | none => (s.parent? id).bind fun up => if up < id then s.resolve up name else none := by
  obtain ⟨arena⟩ := s
  induction arena with
  | nil => rfl
  | cons scope older ih =>
    -- the newest scope has the highest index, so no search that starts below meets it
    have outwards : ∀ {up}, up < older.length →
        resolve ⟨scope :: older⟩ up name = resolve ⟨older⟩ up name := fun below =>
      if_neg (Nat.ne_of_lt below)
    rw [lookupLocal, parent?, scope?_cons]
    by_cases here : id = older.length
    · subst here
      rw [resolve, resolveIn, if_pos rfl, if_pos rfl]
      simp only [Option.bind_some]
      cases scope.bindings.find? name with
      | some ty => rfl
      | none =>
        refine Option.bind_congr fun up _ => ?_
        split
        · next below => exact (outwards below).symm
        · next above => exact resolveIn_eq_none (Nat.le_of_not_lt above)
    -- an older scope: the newest one is skipped, and the older ones answer
    · rw [resolve, resolveIn, if_neg here, if_neg here]
      refine (ih).trans ?_
      rw [lookupLocal, parent?]
      cases found : scope? ⟨older⟩ id with
      | none => rfl
      | some scope' =>
        have below : id < older.length := by
          refine Nat.lt_of_not_le fun above => ?_
          rw [scope?_eq_none above] at found
          cases found
        simp only [Option.bind_some]
        cases scope'.bindings.find? name with
        | some ty => rfl
        | none =>
          refine Option.bind_congr fun up _ => ?_
          split
          · next less => exact (outwards (Nat.lt_trans less below)).symm
          · rfl

/-- The owner of a name depends on the parents and on which scopes bind the name. -/
theorem owner_congr (parents : ∀ id, s'.parent? id = s.parent? id)
    (names : ∀ id, (s'.lookupLocal id name).isSome = (s.lookupLocal id name).isSome)
    (id : ScopeId) : (s'.resolve id name).map (·.1) = (s.resolve id name).map (·.1) := by
  induction id using Nat.strongRecOn with
  | ind id ih =>
    rw [resolve_eq s', resolve_eq s, parents]
    have same := names id
    cases bound : s.lookupLocal id name with
    | some ty =>
      rw [bound, Option.isSome_some, Option.isSome_iff_exists] at same
      obtain ⟨ty', bound'⟩ := same
      rw [bound']
      rfl
    | none =>
      rw [bound, Option.isSome_none, Option.isSome_eq_false_iff, Option.isNone_iff_eq_none] at same
      rw [same]
      simp only [Option.map_bind]
      refine Option.bind_congr fun up _ => ?_
      simp only [Function.comp]
      split
      · next below => exact ih up below
      · rfl

theorem resolve_of_lookupLocal {ty : Ty} (bound : s.lookupLocal id name = some ty) :
    s.resolve id name = some (id, ty) := by
  rw [resolve_eq, bound]

theorem resolve_of_owner {owner : ScopeId} (owned : (s.resolve id name).map (·.1) = some owner) :
    ∃ ty, s.resolve id name = some (owner, ty) := by
  obtain ⟨⟨_, ty⟩, found, rfl⟩ := Option.map_eq_some_iff.mp owned
  exact ⟨ty, found⟩

theorem isSome_lookup_iff : (s.lookup id name).isSome ↔ (s.lookupLocal id name).isSome ∨
    ∃ up, s.parent? id = some up ∧ up < id ∧ (s.lookup up name).isSome := by
  rw [lookup, resolve_eq, Option.isSome_map]
  cases s.lookupLocal id name with
  | some ty => simp
  | none =>
    cases s.parent? id with
    | none => simp
    | some up =>
      by_cases below : up < id
      · simp [below, lookup]
      · simp [below]

/-- A name that is found in some scopes is found in others with the same parents, unless a scope on
the way has come to bind it. -/
theorem isSome_lookup_of {came : Prop} (parents : ∀ i ≤ id, s'.parent? i = s.parent? i)
    (names : ∀ i ≤ id, (s'.lookupLocal i name).isSome → (s.lookupLocal i name).isSome ∨ came)
    (found : (s'.lookup id name).isSome) : (s.lookup id name).isSome ∨ came := by
  induction id using Nat.strongRecOn with
  | ind id ih =>
    rw [isSome_lookup_iff] at found ⊢
    rcases found with here | ⟨up, inside, below, found⟩
    · exact (names id (Nat.le_refl _) here).imp_left .inl
    · have within : ∀ i ≤ up, i ≤ id := fun i le => Nat.le_of_lt (Nat.lt_of_le_of_lt le below)
      rcases ih up below (fun i le => parents i (within i le)) (fun i le => names i (within i le))
        found with known | came
      · refine .inl (.inr ⟨up, ?_, below, known⟩)
        rw [← parents id (Nat.le_refl _)]
        exact inside
      · exact .inr came

theorem lookup_eq_none_iff : s.lookup id name = none ↔ s.resolve id name = none :=
  Option.map_eq_none_iff

/-! ## Bodies -/

theorem find?_ofList_eq_none {bindings : List (String × Ty)}
    (absent : ∀ b ∈ bindings, b.1 ≠ name) : (Table.ofList bindings).find? name = none := by
  cases found : (Table.ofList bindings).find? name with
  | none => rfl
  | some ty => exact absurd rfl (absent _ (Translate.mem_of_find?_ofList found))

/-- Of the bindings of a name the last one counts. -/
theorem find?_ofList_concat (bindings : List (String × Ty)) (name : String) (ty : Ty) :
    (Table.ofList (bindings ++ [(name, ty)])).find? name = some ty := by
  simp [Table.find?_ofList]

/-- A scope that does not bind a name says what its parent says. -/
theorem resolve_child {parent : Nat} {bindings : List (String × Ty)} (alive : parent < s.size)
    (unbound : (Table.ofList bindings).find? name = none) :
    (s.child parent bindings).1.resolve s.size name = s.resolve parent name := by
  rw [resolve_eq, lookupLocal_child_self, unbound, parent?_child_self]
  refine (if_pos alive).trans ?_
  exact if_neg (Nat.ne_of_lt alive)

/-- A scope is the scope of a body or lies inside it. -/
inductive Within (s : Scopes) (body : ScopeId) : ScopeId → Prop
  | body : Within s body body
  | up {id up : ScopeId} : s.parent? id = some up → up < id → Within s body up → Within s body id

namespace Within

theorem mono (within : s.Within body id)
    (parents : ∀ id up, s.parent? id = some up → s'.parent? id = some up) : s'.Within body id := by
  induction within with
  | body => exact .body
  | up parent below _ ih => exact .up (parents _ _ parent) below ih

theorem le (within : s.Within body id) : body ≤ id := by
  induction within with
  | body => exact Nat.le_refl _
  | up _ below _ ih => exact Nat.le_of_lt (Nat.lt_of_le_of_lt ih below)

/-- A name that the scope of a body binds has its owner in the body. -/
theorem owner (within : s.Within body id) (bound : (s.lookupLocal body name).isSome) :
    ∃ owner ty, s.resolve id name = some (owner, ty) ∧ body ≤ owner := by
  induction within with
  | body =>
    obtain ⟨ty, found⟩ := Option.isSome_iff_exists.mp bound
    refine ⟨body, ty, ?_, Nat.le_refl _⟩
    rw [resolve_eq, found]
  | @up id up parent below inner ih =>
    rw [resolve_eq, parent, Option.bind_some, if_pos below]
    cases s.lookupLocal id name with
    | some ty => exact ⟨id, ty, rfl, Nat.le_of_lt (Nat.lt_of_le_of_lt inner.le below)⟩
    | none => exact ih

/-- The chain of a scope of a body leads through the body to the module scope. -/
theorem owner_cases {owner : Nat} (within : s.Within body id)
    (outside : s.parent? body = some moduleScope)
    (found : s.resolve id name = some (owner, ty)) : owner = moduleScope ∨ body ≤ owner := by
  induction within with
  | body =>
    rw [resolve_eq, outside, Option.bind_some] at found
    split at found
    · cases found
      exact .inr (Nat.le_refl _)
    split at found
    · rw [resolve_eq] at found
      split at found
      · cases found
        exact .inl rfl
      · obtain ⟨up, -, found⟩ := Option.bind_eq_some_iff.mp found
        have impossible : ¬up < moduleScope := Nat.not_lt_zero up
        rw [if_neg impossible] at found
        cases found
    · cases found
  | @up id up parent below inner ih =>
    rw [resolve_eq, parent, Option.bind_some, if_pos below] at found
    split at found
    · cases found
      exact .inr (Nat.le_of_lt (Nat.lt_of_le_of_lt inner.le below))
    · exact ih found

end Within

end TreeTyper.Scopes
