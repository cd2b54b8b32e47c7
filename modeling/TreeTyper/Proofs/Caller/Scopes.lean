import TreeTyper.Scope

/-!
# The scopes of a caller

While a body is translated, the scopes of its callers lie between the module
scope and the scopes of the body.  `s.calledFrom locals` puts the scopes `locals`
there: the scopes of `s` above them get higher numbers, the module scope keeps its
own.  No chain of parents in `s` leads through them, so every operation of the
body gives the same result with them as without.

    (s.calledFrom locals).lookup (raise k id) name = s.lookup id name         (lookup_calledFrom)
    (s.calledFrom locals).assign (raise k id) name ty = (s.assign id name ty).calledFrom locals
                                                                              (assign_calledFrom)
-/

namespace TreeTyper

/-! ## Definitions -/

namespace Scopes

/-- The number of a scope of a body above `k` scopes of its callers. -/
def raise (k id : Nat) : Nat := if id = moduleScope then moduleScope else id + k

end Scopes

/-- A scope of a body above `k` scopes of its callers. -/
def Scope.raise (k : Nat) (scope : Scope) : Scope :=
  { scope with parent := scope.parent.map (Scopes.raise k) }

namespace Scopes

variable {locals arena : List Scope} {name : String} {k id : Nat}

/-- The scopes of a body, down to the module scope, with `locals` above the module scope. -/
def raiseIn (locals : List Scope) : List Scope → List Scope
  | [] => []
  | scope :: older =>
    if older.isEmpty then locals ++ [scope] else scope.raise locals.length :: raiseIn locals older

/-- The scopes of a body when its callers have the scopes `locals`. -/
def calledFrom (s : Scopes) (locals : List Scope) : Scopes := ⟨raiseIn locals s.arena⟩

/-! ## Numbers -/

@[simp] theorem raise_module (k : Nat) : raise k moduleScope = moduleScope := if_pos rfl

theorem raise_of_ne (h : id ≠ moduleScope) (k : Nat) : raise k id = id + k := if_neg h

theorem raise_eq_module_iff : raise k id = moduleScope ↔ id = moduleScope := by
  unfold raise moduleScope
  split <;> omega

theorem raise_eq_add_iff {n : Nat} (h : n ≠ 0) : raise k id = n + k ↔ id = n := by
  unfold raise moduleScope
  split <;> omega

theorem raise_lt_add_iff {n : Nat} (h : n ≠ 0) : raise k id < n + k ↔ id < n := by
  unfold raise moduleScope
  split <;> omega

theorem raiseIn_cons {scope : Scope} {older : List Scope} (h : older ≠ []) :
    raiseIn locals (scope :: older) = scope.raise locals.length :: raiseIn locals older :=
  if_neg (by simpa using h)

theorem raiseIn_singleton (scope : Scope) : raiseIn locals [scope] = locals ++ [scope] := rfl

theorem length_raiseIn (h : arena ≠ []) :
    (raiseIn locals arena).length = arena.length + locals.length := by
  induction arena with
  | nil => exact absurd rfl h
  | cons scope older ih =>
    by_cases last : older = []
    · rw [last, raiseIn_singleton, List.length_append, Nat.add_comm]
    · rw [raiseIn_cons last, List.length_cons, ih last, List.length_cons]
      omega

theorem size_calledFrom {s : Scopes} (h : 0 < s.size) :
    (s.calledFrom locals).size = s.size + locals.length :=
  length_raiseIn (List.ne_nil_of_length_pos h)

theorem raise_size {s : Scopes} (h : 0 < s.size) :
    raise locals.length s.size = (s.calledFrom locals).size := by
  rw [size_calledFrom h, raise_of_ne (Nat.ne_of_gt h)]

theorem isAlive_calledFrom {s : Scopes} (h : 0 < s.size) (id : Nat) :
    (s.calledFrom locals).isAlive (raise locals.length id) = s.isAlive id := by
  unfold isAlive
  rw [size_calledFrom h, decide_eq_decide]
  exact raise_lt_add_iff (Nat.ne_of_gt h)

/-! ## Looking up -/

/-- No number of a body is that of a scope of its callers. -/
theorem ne_of_raised (h : id = moduleScope ∨ locals.length + 1 < id) (scope : Scope) :
    id ≠ (locals ++ [scope]).length ∧ (id = moduleScope ∨ locals.length < id) := by
  unfold moduleScope at h ⊢
  simp only [List.length_append, List.length_cons, List.length_nil]
  omega

theorem raised (k id : Nat) : raise k id = moduleScope ∨ k < raise k id := by
  unfold raise moduleScope
  split <;> omega

theorem resolveIn_append {id : Nat} (scope : Scope)
    (h : id = moduleScope ∨ locals.length < id) :
    resolveIn name (locals ++ [scope]) id = resolveIn name [scope] id := by
  induction locals with
  | nil => rfl
  | cons l rest ih =>
    obtain ⟨skipped, above⟩ := ne_of_raised h scope
    rw [List.cons_append, resolveIn, if_neg skipped]
    exact ih above

theorem resolveIn_raiseIn (name : String) (h : arena ≠ []) (id : Nat) :
    resolveIn name (raiseIn locals arena) (raise locals.length id) =
      (resolveIn name arena id).map fun found => (raise locals.length found.1, found.2) := by
  induction arena generalizing id with
  | nil => exact absurd rfl h
  | cons scope older ih =>
    by_cases last : older = []
    · rw [last, raiseIn_singleton, resolveIn_append scope (raised _ _)]
      by_cases isModule : id = moduleScope
      · rw [isModule, raise_module]
        simp only [resolveIn, moduleScope, List.length_nil, if_true]
        cases scope.bindings.find? name with
        | some ty => rfl
        | none => cases scope.parent <;> rfl
      · have differs : ¬raise locals.length id = ([] : List Scope).length :=
          fun same => isModule (raise_eq_module_iff.mp same)
        have outside : ¬id = ([] : List Scope).length := isModule
        simp only [resolveIn, if_neg differs, if_neg outside]
        rfl
    · have positive : older.length ≠ 0 := fun none => last (List.eq_nil_of_length_eq_zero none)
      rw [raiseIn_cons last, resolveIn, resolveIn, length_raiseIn last]
      by_cases here : id = older.length
      · rw [if_pos ((raise_eq_add_iff positive).mpr here), if_pos here]
        cases found : scope.bindings.find? name with
        | some ty => simp [Scope.raise, found]
        | none =>
          cases parent : scope.parent with
          | none => simp [Scope.raise, found, parent]
          | some up => simpa [Scope.raise, found, parent] using ih last up
      · rw [if_neg fun same => here ((raise_eq_add_iff positive).mp same), if_neg here]
        exact ih last id

theorem resolve_calledFrom {s : Scopes} (h : 0 < s.size) (id : Nat) (name : String) :
    (s.calledFrom locals).resolve (raise locals.length id) name =
      (s.resolve id name).map fun found => (raise locals.length found.1, found.2) :=
  resolveIn_raiseIn name (List.ne_nil_of_length_pos h) id

theorem lookup_calledFrom {s : Scopes} (h : 0 < s.size) (id : Nat) (name : String) :
    (s.calledFrom locals).lookup (raise locals.length id) name = s.lookup id name := by
  rw [lookup, lookup, resolve_calledFrom h, Option.map_map]
  rfl

theorem resolveLocal_calledFrom {s : Scopes} (h : 0 < s.size) (id : Nat) (name : String) :
    (s.calledFrom locals).resolveLocal (raise locals.length id) name =
      (s.resolveLocal id name).map (raise locals.length) := by
  rw [resolveLocal, resolveLocal, resolve_calledFrom h]
  cases s.resolve id name with
  | none => rfl
  | some found =>
    simp only [Option.map_some, raise_eq_module_iff, ne_eq]
    split <;> rfl

/-! ## One scope -/

/-- The bindings of one scope, by recursion on the arena. -/
theorem lookupLocal_cons (scope : Scope) (older : List Scope) (id : Nat) (name : String) :
    lookupLocal ⟨scope :: older⟩ id name =
      if id = older.length then scope.bindings.find? name else lookupLocal ⟨older⟩ id name := by
  unfold lookupLocal scope? size
  simp only [List.length_cons]
  rcases Nat.lt_trichotomy id older.length with below | here | above
  · have index : older.length + 1 - 1 - id = (older.length - 1 - id) + 1 := by omega
    rw [if_pos (Nat.lt_succ_of_lt below), if_neg (Nat.ne_of_lt below), if_pos below, index,
      List.getElem?_cons_succ]
  · rw [here, if_pos (Nat.lt_succ_self _), if_pos rfl]
    simp
  · rw [if_neg (Nat.not_lt_of_le above), if_neg (Nat.ne_of_gt above),
      if_neg (Nat.not_lt_of_lt above)]

theorem lookupLocal_append {id : Nat} (scope : Scope) (name : String)
    (h : id = moduleScope ∨ locals.length < id) :
    lookupLocal ⟨locals ++ [scope]⟩ id name = lookupLocal ⟨[scope]⟩ id name := by
  induction locals with
  | nil => rfl
  | cons l rest ih =>
    obtain ⟨skipped, above⟩ := ne_of_raised h scope
    rw [List.cons_append, lookupLocal_cons, if_neg skipped]
    exact ih above

theorem lookupLocal_raiseIn (h : arena ≠ []) (id : Nat) (name : String) :
    lookupLocal ⟨raiseIn locals arena⟩ (raise locals.length id) name =
      lookupLocal ⟨arena⟩ id name := by
  induction arena with
  | nil => exact absurd rfl h
  | cons scope older ih =>
    by_cases last : older = []
    · rw [last, raiseIn_singleton, lookupLocal_append scope name (raised _ _), lookupLocal_cons,
        lookupLocal_cons]
      have same : raise locals.length id = ([] : List Scope).length ↔
          id = ([] : List Scope).length := raise_eq_module_iff
      simp only [same]
      rfl
    · have positive : older.length ≠ 0 := fun none => last (List.eq_nil_of_length_eq_zero none)
      rw [raiseIn_cons last, lookupLocal_cons, lookupLocal_cons, length_raiseIn last, ih last]
      simp only [raise_eq_add_iff positive]
      rfl

theorem lookupLocal_calledFrom {s : Scopes} (h : 0 < s.size) (id : Nat) (name : String) :
    (s.calledFrom locals).lookupLocal (raise locals.length id) name = s.lookupLocal id name :=
  lookupLocal_raiseIn (List.ne_nil_of_length_pos h) id name

/-! ## Changing -/

@[simp] theorem length_defineIn (name : String) (ty : Ty) (arena : List Scope) (id : Nat) :
    (defineIn name ty arena id).length = arena.length := by
  induction arena with
  | nil => rfl
  | cons scope older ih =>
    rw [defineIn]
    split
    · rfl
    · rw [List.length_cons, ih, List.length_cons]

@[simp] theorem size_define (s : Scopes) (id : Nat) (name : String) (ty : Ty) :
    (s.define id name ty).size = s.size := length_defineIn ..

@[simp] theorem size_assign (s : Scopes) (id : Nat) (name : String) (ty : Ty) :
    (s.assign id name ty).size = s.size := by
  unfold assign
  split <;> exact size_define ..

theorem defineIn_append {ty : Ty} {id : Nat} (scope : Scope)
    (h : id = moduleScope ∨ locals.length < id) :
    defineIn name ty (locals ++ [scope]) id = locals ++ defineIn name ty [scope] id := by
  induction locals with
  | nil => rfl
  | cons l rest ih =>
    obtain ⟨skipped, above⟩ := ne_of_raised h scope
    rw [List.cons_append, defineIn, if_neg skipped, List.cons_append,
      ih above]

theorem defineIn_raiseIn (name : String) (ty : Ty) (h : arena ≠ []) (id : Nat) :
    defineIn name ty (raiseIn locals arena) (raise locals.length id) =
      raiseIn locals (defineIn name ty arena id) := by
  induction arena with
  | nil => exact absurd rfl h
  | cons scope older ih =>
    by_cases last : older = []
    · rw [last, raiseIn_singleton, defineIn_append scope (raised _ _)]
      have same : raise locals.length id = ([] : List Scope).length ↔
          id = ([] : List Scope).length := raise_eq_module_iff
      simp only [defineIn, same]
      split <;> rfl
    · have positive : older.length ≠ 0 := fun none => last (List.eq_nil_of_length_eq_zero none)
      have defined : defineIn name ty older id ≠ [] := fun none =>
        positive (by rw [← length_defineIn name ty older id, none]; rfl)
      rw [raiseIn_cons last, defineIn, defineIn, length_raiseIn last, ih last]
      simp only [raise_eq_add_iff positive]
      split
      · rw [raiseIn_cons last]
        rfl
      · rw [raiseIn_cons defined]

theorem define_calledFrom {s : Scopes} (h : 0 < s.size) (id : Nat) (name : String) (ty : Ty) :
    (s.calledFrom locals).define (raise locals.length id) name ty =
      (s.define id name ty).calledFrom locals :=
  congrArg Scopes.mk (defineIn_raiseIn name ty (List.ne_nil_of_length_pos h) id)

theorem assign_calledFrom {s : Scopes} (h : 0 < s.size) (id : Nat) (name : String) (ty : Ty) :
    (s.calledFrom locals).assign (raise locals.length id) name ty =
      (s.assign id name ty).calledFrom locals := by
  rw [assign, assign, resolve_calledFrom h]
  cases s.resolve id name with
  | none => exact define_calledFrom h id name ty
  | some found => exact define_calledFrom h found.1 name ty

/-! ## Opening and closing -/

theorem child_calledFrom {s : Scopes} (h : 0 < s.size) (parent : ScopeId)
    (bindings : List (String × Ty)) :
    (s.calledFrom locals).child (raise locals.length parent) bindings =
      ((s.child parent bindings).1.calledFrom locals, raise locals.length s.size) := by
  unfold child
  refine Prod.ext (congrArg Scopes.mk ?_) (raise_size h).symm
  rw [raiseIn_cons (List.ne_nil_of_length_pos h)]
  rfl

theorem drop_raiseIn {n : Nat} (h : n < arena.length) :
    (raiseIn locals arena).drop n = raiseIn locals (arena.drop n) := by
  induction arena generalizing n with
  | nil => exact absurd h (Nat.not_lt_zero n)
  | cons scope older ih =>
    cases n with
    | zero => rfl
    | succ n =>
      have below : n < older.length := Nat.lt_of_succ_lt_succ h
      rw [raiseIn_cons (List.ne_nil_of_length_pos (Nat.zero_lt_of_lt below)), List.drop_succ_cons,
        List.drop_succ_cons, ih below]

theorem discard_calledFrom {s : Scopes} {mark : Nat} (h : 0 < mark) (le : mark ≤ s.size) :
    (s.calledFrom locals).discard (mark + locals.length) = (s.discard mark).calledFrom locals := by
  have positive : 0 < s.size := Nat.lt_of_lt_of_le h le
  have kept : s.size + locals.length - (mark + locals.length) = s.size - mark := by omega
  unfold discard
  rw [size_calledFrom positive, kept]
  refine congrArg Scopes.mk (drop_raiseIn ?_)
  change s.size - mark < s.size
  omega

/-! ## The names of a scope -/

theorem lookupLocal_define_of_ne {id id' : Nat} (h : id' ≠ id) (s : Scopes) (name name' : String)
    (ty : Ty) : (s.define id name ty).lookupLocal id' name' = s.lookupLocal id' name' := by
  obtain ⟨arena⟩ := s
  unfold define
  induction arena with
  | nil => rfl
  | cons scope older ih =>
    rw [defineIn]
    split
    · next here =>
      have differs : ¬id' = older.length := fun same => h (same.trans here.symm)
      rw [lookupLocal_cons, lookupLocal_cons, if_neg differs, if_neg differs]
    · rw [lookupLocal_cons, lookupLocal_cons, length_defineIn, ih]

/-- A bound name takes a new type, and no name is bound anew. -/
theorem isSome_lookupLocal_define {s : Scopes} {id : Nat} (ty : Ty)
    (h : (s.lookupLocal id name).isSome) (name' : String) :
    ((s.define id name ty).lookupLocal id name').isSome = (s.lookupLocal id name').isSome := by
  obtain ⟨arena⟩ := s
  unfold define
  induction arena with
  | nil => rfl
  | cons scope older ih =>
    rw [lookupLocal_cons] at h
    rw [defineIn]
    by_cases here : id = older.length
    · rw [if_pos here] at h ⊢
      rw [lookupLocal_cons, lookupLocal_cons, if_pos here, if_pos here, Table.find?_insert]
      split
      · next same => rw [same, h, Option.isSome_some]
      · rfl
    · rw [if_neg here] at h ⊢
      rw [lookupLocal_cons, lookupLocal_cons, length_defineIn, if_neg here, if_neg here]
      exact ih h

/-- The scope to which a name resolves binds it. -/
theorem lookupLocal_of_resolve {s : Scopes} {id owner : Nat} {ty : Ty}
    (h : s.resolve id name = some (owner, ty)) :
    s.lookupLocal owner name = some ty ∧ owner < s.size := by
  obtain ⟨arena⟩ := s
  unfold resolve at h
  simp only [size]
  induction arena generalizing id with
  | nil => cases h
  | cons scope older ih =>
    have within : ∀ {id}, resolveIn name older id = some (owner, ty) →
        lookupLocal ⟨scope :: older⟩ owner name = some ty ∧ owner < (scope :: older).length := by
      intro id found
      obtain ⟨bound, lt⟩ := ih found
      rw [lookupLocal_cons, if_neg (Nat.ne_of_lt lt)]
      exact ⟨bound, Nat.lt_succ_of_lt lt⟩
    rw [resolveIn] at h
    split at h
    · next here =>
      split at h
      · next ty' bound =>
        cases h
        rw [lookupLocal_cons, if_pos here]
        exact ⟨bound, Nat.lt_succ_of_le (Nat.le_of_eq here)⟩
      · obtain ⟨up, -, found⟩ := Option.bind_eq_some_iff.mp h
        exact within found
    · exact within h

theorem lookupLocal_drop {n id : Nat} (h : id < arena.length - n) (name : String) :
    lookupLocal ⟨arena.drop n⟩ id name = lookupLocal ⟨arena⟩ id name := by
  induction arena generalizing n with
  | nil => cases n <;> rfl
  | cons scope older ih =>
    cases n with
    | zero => rfl
    | succ n =>
      have below : id < older.length - n := by
        rw [List.length_cons] at h
        omega
      rw [List.drop_succ_cons, ih below, lookupLocal_cons, if_neg (by omega)]

end Scopes

end TreeTyper
