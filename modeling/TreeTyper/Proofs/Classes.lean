import TreeTyper.Proofs.Shape

/-!
# Declarations of classes

What the declaration of a class or of a method does to the hierarchy.  A class is
declared after its base, so a walk along the bases ends, and visits no more
classes than are declared: the bound on the walks of a hierarchy cuts none off.

    h.Founded → h.Complete        (Founded.complete)
-/

namespace TreeTyper.Hierarchy

/-! ## Bases -/

variable {next next' : String → Option String} {names : List String}

/-- Every name comes after the one above it; the last declared name is the first. -/
inductive Ordered (next : String → Option String) : List String → Prop
  | nil : Ordered next []
  | cons {name names} : (∀ up, next name = some up → up ∈ names) → Ordered next names →
      Ordered next (name :: names)

theorem Ordered.congr (ordered : Ordered next names)
    (same : ∀ name ∈ names, next' name = next name) : Ordered next' names := by
  induction ordered with
  | nil => exact .nil
  | @cons name names up _ ih =>
    refine .cons (fun above h => up above ?_) (ih fun other hother => same other ?_)
    · rw [← same name List.mem_cons_self]
      exact h
    · exact List.mem_cons_of_mem name hother

/-- A walk of at least as many steps as there are names visits every name of its chain. -/
theorem Ordered.chain_eq (ordered : Ordered next names) {name : String} (known : name ∈ names)
    (k : Nat) : chain next (names.length + k) name = chain next names.length name := by
  induction ordered generalizing name k with
  | nil => cases known
  | @cons first names up _ ih =>
    rcases List.mem_cons.mp known with rfl | known
    · have steps : (name :: names).length + k = (names.length + k) + 1 := by
        rw [List.length_cons]
        omega
      rw [steps, List.length_cons, chain, chain]
      cases above : next name with
      | none => rfl
      | some other =>
        have further := ih (up other above) k
        exact congrArg (name :: ·) further
    · have steps : (first :: names).length + k = names.length + (k + 1) := by
        rw [List.length_cons]
        omega
      rw [steps, List.length_cons, ih known (k + 1), ih known 1]

theorem chain_of_none {name : String} (last : next name = none) (steps : Nat) :
    chain next steps name = [name] := by
  cases steps with
  | zero => rfl
  | succ steps => rw [chain, last]

/-- No walk is cut off by a bound that is no less than the number of names. -/
theorem Ordered.chain_complete (ordered : Ordered next names)
    (others : ∀ name, name ∉ names → next name = none) {bound : Nat} (enough : names.length ≤ bound)
    (k : Nat) (name : String) : chain next (bound + k) name = chain next bound name := by
  by_cases known : name ∈ names
  · obtain ⟨more, rfl⟩ := Nat.exists_eq_add_of_le enough
    rw [Nat.add_assoc, ordered.chain_eq known, ordered.chain_eq known]
  · have last := others name known
    rw [chain_of_none last, chain_of_none last]

/-! ## One declaration -/

variable {h h' : Hierarchy}

/-- The hierarchy in which a class has other data. -/
def withClass (h : Hierarchy) (name : String) (info : ClassInfo) : Hierarchy :=
  { h with classes := h.classes.insert name info }

@[simp] theorem exceptions_withClass (name : String) (info : ClassInfo) :
    (h.withClass name info).exceptions = h.exceptions := rfl

theorem ownMethods_withClass (name : String) (info : ClassInfo) (c : String) :
    (h.withClass name info).ownMethods c = if c = name then info.ownMethods else h.ownMethods c := by
  unfold ownMethods withClass
  rw [Table.find?_insert]
  split <;> rfl

theorem methods_withClass (name : String) (info : ClassInfo) (c : String) :
    (h.withClass name info).methods c = if c = name then info.methods.entries else h.methods c := by
  unfold methods withClass
  rw [Table.find?_insert]
  split <;> rfl

theorem method?_withClass (name : String) (info : ClassInfo) (c method : String) :
    (h.withClass name info).method? c method =
      if c = name then info.methods.find? method else h.method? c method := by
  unfold method? withClass
  rw [Table.find?_insert]
  split <;> rfl

theorem base?_withClass (name : String) (info : ClassInfo) (c : String) :
    (h.withClass name info).base? c = if c = name then info.base else h.base? c := by
  unfold base? withClass
  rw [Table.find?_insert]
  split <;> rfl

theorem isClass_withClass (name : String) (info : ClassInfo) (c : String) :
    (h.withClass name info).isClass c = (decide (c = name) || h.isClass c) := by
  unfold isClass Table.contains withClass
  rw [Table.find?_insert]
  by_cases same : c = name <;> simp [same]

theorem size_withClass (name : String) (info : ClassInfo) :
    h.classes.size ≤ (h.withClass name info).classes.size := by
  exact Table.size_le_insert ..

/-- A new class has the methods of its base, and none of its own. -/
theorem declareClass_cases {name : String} {base : Option String}
    (declared : h.declareClass name base = some h') :
    ∃ h₁ methods, h' = h₁.withClass name ⟨base, [], methods, [], []⟩ ∧
      (base = none ∧ h₁ = h ∧ methods = Table.empty ∨
        ∃ b info, base = some b ∧ h.classes.find? b = some info ∧ methods = info.methods ∧
          h₁ = h.withClass b { info with subclasses := info.subclasses ++ [name] }) := by
  cases base with
  | none =>
    cases declared
    exact ⟨h, _, rfl, .inl ⟨rfl, rfl, rfl⟩⟩
  | some b =>
    obtain ⟨info, found, declared⟩ := Option.bind_eq_some_iff.mp declared
    cases declared
    exact ⟨_, _, rfl, .inr ⟨b, info, rfl, found, rfl, rfl⟩⟩

/-- A method gets the cell that its class inherits for it, or a new one. -/
theorem declareMethod_cases {cells cells' : Cells} {className method : String} {arity : Nat}
    {cell : CellId} (declared : h.declareMethod cells className method arity =
      some (h', cells', cell)) :
    ∃ info, h.classes.find? className = some info ∧
      h' = h.withClass className { info with
        methods := info.methods.insert method ⟨cell, className⟩
        ownMethods := info.ownMethods ++ [method] } ∧
      ((∃ entry, info.methods.find? method = some entry ∧ cell = entry.cell ∧ cells' = cells ∧
          method ≠ constructorName) ∨
        (cells', cell) = cells.alloc (Signature.placeholder arity)) := by
  obtain ⟨info, found, declared⟩ := Option.bind_eq_some_iff.mp declared
  refine ⟨info, found, ?_⟩
  extract_lets inherited at declared
  split at declared
  next cells₁ cell₁ chosen =>
  extract_lets at declared
  cases declared
  refine ⟨rfl, ?_⟩
  cases shared : inherited with
  | some entry =>
    rw [shared] at chosen
    cases chosen
    obtain ⟨known, fits⟩ := Option.filter_eq_some_iff.mp shared
    exact .inl ⟨entry, known, rfl, rfl, by simpa using (Bool.and_eq_true_iff.mp fits).1⟩
  | none =>
    rw [shared] at chosen
    exact .inr chosen.symm

/-- Hierarchies with the same classes, bases and exceptions. -/
structure SameBases (h h' : Hierarchy) : Prop where
  base? : h'.base? = h.base?
  isClass : h'.isClass = h.isClass
  exceptions : h'.exceptions = h.exceptions
  size : h.classes.size ≤ h'.classes.size

theorem SameBases.refl (h : Hierarchy) : SameBases h h := ⟨rfl, rfl, rfl, Nat.le_refl _⟩

theorem SameBases.trans {h'' : Hierarchy} (a : SameBases h h') (b : SameBases h' h'') :
    SameBases h h'' :=
  ⟨b.base?.trans a.base?, b.isClass.trans a.isClass, b.exceptions.trans a.exceptions,
    Nat.le_trans a.size b.size⟩

/-- A class that gets other methods keeps its base. -/
theorem SameBases.withClass {name : String} {info : ClassInfo} (info' : ClassInfo)
    (found : h.classes.find? name = some info) (base : info'.base = info.base) :
    SameBases h (h.withClass name info') := by
  refine ⟨funext fun c => ?_, funext fun c => ?_, rfl, size_withClass ..⟩
  · rw [base?_withClass]
    split
    · next same =>
      rw [same, Hierarchy.base?, found, base]
      rfl
    · rfl
  · have known : h.isClass name = true := by
      unfold Hierarchy.isClass Table.contains
      rw [found]
      rfl
    rw [isClass_withClass]
    by_cases same : c = name
    · simp [same, known]
    · simp [same]

theorem isClass_declareClass_iff {name c : String} {base : Option String}
    (declared : h.declareClass name base = some h') : h'.isClass c ↔ c = name ∨ h.isClass c := by
  obtain ⟨h₁, methods, rfl, ⟨-, rfl, -⟩ | ⟨b, info, -, found, -, rfl⟩⟩ :=
    declareClass_cases declared
  · rw [isClass_withClass, Bool.or_eq_true, decide_eq_true_iff]
  · have same := SameBases.withClass
      { info with subclasses := info.subclasses ++ [name] } found rfl
    rw [isClass_withClass, Bool.or_eq_true, decide_eq_true_iff, same.isClass]

/-! ## Bounds on walks -/

/-- The base of a custom exception that is custom itself. -/
def exceptionBase? (h : Hierarchy) (name : String) : Option String :=
  (h.exceptions.find? name).join

/-- Classes and exceptions that were declared after their bases, each once. -/
structure Founded (h : Hierarchy) : Prop where
  classes : ∃ names, Ordered h.base? names ∧ (∀ c, h.isClass c ↔ c ∈ names) ∧
    names.length ≤ h.classes.size
  exceptions : ∃ names, Ordered h.exceptionBase? names ∧
    (∀ c, h.isCustomException c ↔ c ∈ names) ∧ names.length ≤ h.exceptions.size

/-- No walk along the bases is cut off by its bound. -/
def Complete (h : Hierarchy) : Prop :=
  ∀ name k, chain h.base? (h.classes.size + k) name = h.ancestors name ∧
    chain h.exceptionBase? (h.exceptions.size + k) name =
      chain h.exceptionBase? h.exceptions.size name

theorem base?_of_not_isClass {c : String} (unknown : ¬h.isClass c) : h.base? c = none := by
  unfold isClass Table.contains at unknown
  rw [Bool.not_eq_true, Option.isSome_eq_false_iff, Option.isNone_iff_eq_none] at unknown
  rw [base?, unknown]
  rfl

theorem exceptionBase?_of_not_custom {c : String} (unknown : ¬h.isCustomException c) :
    h.exceptionBase? c = none := by
  unfold isCustomException Table.contains at unknown
  rw [Bool.not_eq_true, Option.isSome_eq_false_iff, Option.isNone_iff_eq_none] at unknown
  rw [exceptionBase?, unknown]
  rfl

theorem Founded.complete (founded : Founded h) : Complete h := by
  obtain ⟨classes, ordered, known, enough⟩ := founded.classes
  obtain ⟨exceptions, ordered', known', enough'⟩ := founded.exceptions
  refine fun name k => ⟨ordered.chain_complete ?_ enough k name,
    ordered'.chain_complete ?_ enough' k name⟩
  · exact fun c hc => base?_of_not_isClass fun isClass => hc ((known c).mp isClass)
  · exact fun c hc => exceptionBase?_of_not_custom fun custom => hc ((known' c).mp custom)

theorem Complete.sameShape (complete : Complete h) (same : SameShape h h') : Complete h' := by
  have custom : h'.exceptionBase? = h.exceptionBase? := by
    funext name
    rw [exceptionBase?, exceptionBase?, same.exceptions]
  intro name k
  rw [same.base?_eq, same.size, same.ancestors_eq, custom, same.exceptions]
  exact complete name k

theorem Founded.empty : Founded Hierarchy.empty where
  classes := ⟨[], .nil, by simp [isClass, Table.contains, Hierarchy.empty], Nat.zero_le _⟩
  exceptions :=
    ⟨[], .nil, by simp [isCustomException, Table.contains, Hierarchy.empty], Nat.zero_le _⟩

theorem Founded.sameBases (founded : Founded h) (same : SameBases h h') : Founded h' := by
  obtain ⟨names, ordered, known, enough⟩ := founded.classes
  refine ⟨⟨names, ?_, ?_, Nat.le_trans enough same.size⟩, ?_⟩
  · rw [same.base?]
    exact ordered
  · rw [same.isClass]
    exact known
  · have custom : h'.exceptionBase? = h.exceptionBase? := by
      funext name
      rw [exceptionBase?, exceptionBase?, same.exceptions]
    unfold isCustomException
    rw [custom, same.exceptions]
    exact founded.exceptions

theorem Founded.sameShape (founded : Founded h) (same : SameShape h h') : Founded h' :=
  founded.sameBases ⟨same.base?_eq, funext same.isClass_eq, same.exceptions,
    Nat.le_of_eq same.size.symm⟩

theorem size_withClass_of_new {name : String} (fresh : ¬h.isClass name) (info : ClassInfo) :
    (h.withClass name info).classes.size = h.classes.size + 1 := by
  refine Table.size_insert_of_none ?_ info
  unfold isClass Table.contains at fresh
  rwa [Bool.not_eq_true, Option.isSome_eq_false_iff, Option.isNone_iff_eq_none] at fresh

/-- A new name comes after all others. -/
theorem Ordered.extend (ordered : Ordered next names) {name : String} (fresh : name ∉ names)
    (above : ∀ up, next' name = some up → up ∈ names) (same : ∀ c, c ≠ name → next' c = next c) :
    Ordered next' (name :: names) :=
  .cons above (ordered.congr fun c hc => same c fun is => fresh (is ▸ hc))

theorem Founded.withClass (founded : Founded h) {name : String} (fresh : ¬h.isClass name)
    {info : ClassInfo} (above : ∀ b, info.base = some b → h.isClass b) :
    Founded (h.withClass name info) := by
  obtain ⟨names, ordered, known, enough⟩ := founded.classes
  refine ⟨⟨name :: names, ordered.extend ?_ ?_ ?_, ?_, ?_⟩, founded.exceptions⟩
  · exact fun hc => fresh ((known name).mpr hc)
  · intro up hup
    rw [base?_withClass, if_pos rfl] at hup
    exact (known up).mp (above up hup)
  · intro c differs
    rw [base?_withClass, if_neg differs]
  · intro c
    rw [isClass_withClass, List.mem_cons, ← known c, Bool.or_eq_true, decide_eq_true_iff]
  · rw [size_withClass_of_new fresh, List.length_cons]
    omega

theorem Founded.declareClass (founded : Founded h) {name : String} (fresh : ¬h.isClass name)
    {base : Option String} (declared : h.declareClass name base = some h') : Founded h' := by
  obtain ⟨h₁, methods, rfl, ⟨rfl, rfl, -⟩ | ⟨b, info, rfl, found, -, rfl⟩⟩ :=
    declareClass_cases declared
  · exact founded.withClass fresh fun b hb => nomatch hb
  · have same := SameBases.withClass { info with subclasses := info.subclasses ++ [name] } found rfl
    have isBase : h.isClass b := by
      unfold isClass Table.contains
      rw [found]
      rfl
    refine (founded.sameBases same).withClass (by rw [same.isClass]; exact fresh) ?_
    rintro _ ⟨rfl⟩
    rw [same.isClass]
    exact isBase

theorem Founded.declareException (founded : Founded h) {name base : String}
    (fresh : ¬h.isCustomException name) (derives : h.isException base) :
    Founded (h.declareException name base) := by
  obtain ⟨names, ordered, known, enough⟩ := founded.exceptions
  have find : ∀ c, (h.declareException name base).exceptions.find? c =
      if c = name then some (if base = Ty.exceptionName then none else some base)
      else h.exceptions.find? c := fun c => Table.find?_insert ..
  refine ⟨founded.classes, name :: names, ordered.extend ?_ ?_ ?_, ?_, ?_⟩
  · exact fun hc => fresh ((known name).mpr hc)
  -- the base is the root, which has no entry, or it was declared before
  · intro up hup
    rw [exceptionBase?, find, if_pos rfl] at hup
    by_cases root : base = Ty.exceptionName
    · rw [if_pos root] at hup
      cases hup
    · rw [if_neg root] at hup
      cases hup
      rw [isException, Bool.or_eq_true, beq_iff_eq] at derives
      exact (known base).mp (derives.resolve_left root)
  · intro c differs
    rw [exceptionBase?, find, if_neg differs]
    rfl
  · intro c
    rw [isCustomException, Table.contains, find, List.mem_cons, ← known c]
    by_cases same : c = name
    · simp [same]
    · simp [same, isCustomException, Table.contains]
  -- one more name and one more entry, since the name is fresh
  · have longer : (h.declareException name base).exceptions.size = h.exceptions.size + 1 := by
      refine Table.size_insert_of_none ?_ _
      unfold isCustomException Table.contains at fresh
      rwa [Bool.not_eq_true, Option.isSome_eq_false_iff, Option.isNone_iff_eq_none] at fresh
    rw [longer, List.length_cons]
    omega

end TreeTyper.Hierarchy
