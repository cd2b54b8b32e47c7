import TreeTyper.Proofs.Outline

/-!
# What the outline declares

The definitions of a module are its functions and the methods of its classes, but
for the classes that are exceptions.  `Tree.Module.keys` lists them in source
order, as the syntax has them; the outline finds the same list.

    OutlinesAll .empty .empty m.body o s → o.keys s.hierarchy = m.keys        (OutlinesAll.keys_eq)
-/

namespace TreeTyper

/-! ## Definitions of the source -/

namespace Tree

def Stmt.functionName? : Stmt → Option String
  | ⟨.functionDef d, _⟩ => some d.name
  | _ => none

/-- The name of a class or of a custom exception. -/
def Stmt.className? : Stmt → Option String
  | ⟨.classDef d, _⟩ => some d.name
  | _ => none

/-- The names of the methods in the body of a class. -/
def memberNames (body : List Stmt) : List String := body.filterMap Stmt.functionName?

/-- Whether a class is an exception, when some names of exceptions are known. -/
def ClassDef.IsException (d : ClassDef) (exceptions : List String) : Prop :=
  ∃ base ∈ d.baseName?, base ∈ exceptions

instance (d : ClassDef) (exceptions : List String) : Decidable (d.IsException exceptions) :=
  inferInstanceAs (Decidable (∃ base ∈ d.baseName?, base ∈ exceptions))

/-- The names of exceptions that are known after a statement. -/
def Stmt.exceptions (known : List String) : Stmt → List String
  | ⟨.classDef d, _⟩ => if d.IsException known then d.name :: known else known
  | _ => known

/-- The definitions of a statement, with the position that a failure to reach them has. -/
def Stmt.keys (exceptions : List String) : Stmt → List (DefKey × Pos)
  | ⟨.functionDef d, pos⟩ => [(.function d.name, pos)]
  | ⟨.classDef d, pos⟩ =>
    if d.IsException exceptions then []
    else (memberNames d.body).map fun name => (.method d.name name, pos)
  | _ => []

def keysFrom (exceptions : List String) : List Stmt → List (DefKey × Pos)
  | [] => []
  | s :: rest => s.keys exceptions ++ keysFrom (s.exceptions exceptions) rest

/-- The functions and methods of a module in source order. -/
def Module.keys (m : Module) : List (DefKey × Pos) := keysFrom [Ty.exceptionName] m.body

def Module.functionNames (m : Module) : List String := m.body.filterMap Stmt.functionName?

/-- The names of the classes and custom exceptions of a module. -/
def Module.classNames (m : Module) : List String := m.body.filterMap Stmt.className?

end Tree

namespace Translate

open TreeTyper.Tree (memberNames keysFrom)

variable {s s' : State} {o o' : Outline} {className : String} {body stmts : List Tree.Stmt}
  {stmt : Tree.Stmt} {exceptions : List String}

/-! ## Members -/

theorem Members.ownMethods_eq (run : Members className s body s') (c : String) :
    s'.hierarchy.ownMethods c =
      s.hierarchy.ownMethods c ++ if c = className then memberNames body else [] := by
  induction run with
  | nil => rw [memberNames, List.filterMap_nil, ite_self, List.append_nil]
  | pass _ ih => exact ih
  | @method s s' d pos rest hierarchy cells cell _ _ declared _ ih =>
    obtain ⟨info, found, rfl, -⟩ := Hierarchy.declareMethod_cases declared
    rw [ih]
    dsimp only
    rw [Hierarchy.ownMethods_withClass]
    by_cases same : c = className
    · have before : s.hierarchy.ownMethods c = info.ownMethods := by
        rw [same, Hierarchy.ownMethods, found]
        rfl
      rw [if_pos same, if_pos same, if_pos same, before, List.append_assoc]
      rfl
    · rw [if_neg same, if_neg same, if_neg same]

theorem Members.nodup (run : Members className s body s')
    (distinct : (s.hierarchy.ownMethods className).Nodup) :
    (s'.hierarchy.ownMethods className).Nodup := by
  induction run with
  | nil => exact distinct
  | pass _ ih => exact ih distinct
  | @method s s' d pos rest hierarchy cells cell _ fresh declared _ ih =>
    refine ih ?_
    obtain ⟨info, found, rfl, -⟩ := Hierarchy.declareMethod_cases declared
    have before : s.hierarchy.ownMethods className = info.ownMethods := by
      rw [Hierarchy.ownMethods, found]
      rfl
    rw [before] at distinct fresh
    rw [Hierarchy.ownMethods_withClass, if_pos rfl]
    exact List.nodup_append.mpr ⟨distinct, by simp, fun a ha b hb same =>
      fresh (by rw [← List.mem_singleton.mp hb, ← same]; exact ha)⟩

theorem phase?_insert (d : Definitions) (key key' : DefKey) (f : Tree.FunctionDef) :
    Definitions.phase? { d with states := d.states.insert key (.unresolved f) } key' =
      if key' = key then some .unresolved else d.phase? key' := by
  unfold Definitions.phase?
  rw [Table.find?_insert]
  split <;> rfl

theorem Members.phase?_eq (run : Members className s body s') (key : DefKey) :
    s'.definitions.phase? key =
      if key ∈ (memberNames body).map (DefKey.method className) then some .unresolved
      else s.definitions.phase? key := by
  induction run with
  | nil => rfl
  | pass _ ih => exact ih
  | @method s s' d pos rest hierarchy cells cell _ _ _ _ ih =>
    rw [ih]
    dsimp only [Definitions.declareMethod]
    rw [phase?_insert]
    have names : memberNames (⟨.functionDef d, pos⟩ :: rest) = d.name :: memberNames rest := rfl
    rw [names, List.map_cons]
    by_cases later : key ∈ (memberNames rest).map (DefKey.method className)
    · rw [if_pos later, if_pos (List.mem_cons_of_mem _ later)]
    · by_cases same : key = .method className d.name
      · rw [if_neg later, if_pos same, if_pos (by rw [same]; exact List.mem_cons_self)]
      · rw [if_neg later, if_neg same, if_neg fun known => (List.mem_cons.mp known).elim same later]

/-! ## Definitions of the outline -/

/-- The definitions of a class are its methods in the order of their declaration. -/
def TopDefinition.keys (h : Hierarchy) : TopDefinition → List (DefKey × Pos)
  | .function name pos => [(.function name, pos)]
  | .classDef name _ pos => (h.ownMethods name).map fun method => (.method name method, pos)
  | .exception .. => []

def TopDefinition.className? : TopDefinition → Option String
  | .classDef name _ _ => some name
  | _ => none

def Outline.keys (o : Outline) (h : Hierarchy) : List (DefKey × Pos) :=
  o.definitions.flatMap (·.keys h)

/-- The exceptions that are known are the names of exceptions in the hierarchy. -/
def KnowsExceptions (h : Hierarchy) (exceptions : List String) : Prop :=
  ∀ id, h.isException id ↔ id ∈ exceptions

theorem ownMethods_declareClass {h h' : Hierarchy} {name : String} {base : Option String}
    (declared : h.declareClass name base = some h') (c : String) :
    h'.ownMethods c = if c = name then [] else h.ownMethods c := by
  obtain ⟨h₁, methods, rfl, ⟨-, rfl, -⟩ | ⟨b, info, -, found, -, rfl⟩⟩ :=
    Hierarchy.declareClass_cases declared
  · exact Hierarchy.ownMethods_withClass ..
  · rw [Hierarchy.ownMethods_withClass, Hierarchy.ownMethods_withClass]
    by_cases same : c = b
    · have before : h.ownMethods c = info.ownMethods := by
        rw [same, Hierarchy.ownMethods, found]
        rfl
      rw [if_pos same, before]
    · rw [if_neg same]

theorem exceptions_declareClass {h h' : Hierarchy} {name : String} {base : Option String}
    (declared : h.declareClass name base = some h') : h'.exceptions = h.exceptions := by
  obtain ⟨h₁, methods, rfl, ⟨-, rfl, -⟩ | ⟨b, info, -, found, -, rfl⟩⟩ :=
    Hierarchy.declareClass_cases declared
  · rfl
  · rfl

theorem KnowsExceptions.congr {h h' : Hierarchy} (known : KnowsExceptions h exceptions)
    (same : h'.exceptions = h.exceptions) : KnowsExceptions h' exceptions := by
  intro id
  rw [← known id, Hierarchy.isException, Hierarchy.isException, Hierarchy.isCustomException,
    Hierarchy.isCustomException, same]

/-- A class is an exception for the hierarchy when it is one for the syntax. -/
theorem Outlines.exceptions_eq (run : Outlines o s stmt o' s')
    (known : KnowsExceptions s.hierarchy exceptions) :
    KnowsExceptions s'.hierarchy (stmt.exceptions exceptions) := by
  cases run with
  | @classDef s' d pos hierarchy _ _ notException declared members =>
    have isClass : ¬d.IsException exceptions := by
      rintro ⟨base, hbase, isException⟩
      exact notException base hbase ((known base).mpr isException)
    rw [Tree.Stmt.exceptions, if_neg isClass]
    exact known.congr (members.sameBases.exceptions.trans (exceptions_declareClass declared))
  | @exception d pos base _ based isException =>
    have derived : d.IsException exceptions := ⟨base, based, (known base).mp isException⟩
    rw [Tree.Stmt.exceptions, if_pos derived]
    intro id
    rw [List.mem_cons, ← known id]
    simp only [Hierarchy.isException, Hierarchy.isCustomException, Hierarchy.declareException,
      Table.contains, Table.find?_insert, Bool.or_eq_true]
    by_cases same : id = d.name <;> simp [same]
  | @main kind pos notFunction notClass =>
    cases kind with
    | classDef d => exact absurd rfl (notClass d)
    | _ => exact known
  | _ => exact known

/-- The classes of the outline that are declared before a class of another name keep their
methods. -/
theorem keys_congr {h h' : Hierarchy} {definitions : List TopDefinition}
    (same : ∀ d ∈ definitions, ∀ c ∈ d.className?, h'.ownMethods c = h.ownMethods c) :
    definitions.flatMap (·.keys h') = definitions.flatMap (·.keys h) := by
  rw [List.flatMap_def, List.flatMap_def]
  congr 1
  refine List.map_congr_left fun d hd => ?_
  cases d with
  | classDef name base pos =>
    have methods := same _ hd name rfl
    simp only [TopDefinition.keys, methods]
  | _ => rfl

theorem Outlines.keys_eq (run : Outlines o s stmt o' s')
    (known : KnowsExceptions s.hierarchy exceptions)
    (fresh : ∀ d ∈ o.definitions, ∀ c ∈ d.className?, stmt.className? ≠ some c) :
    o'.keys s'.hierarchy = o.keys s.hierarchy ++ stmt.keys exceptions := by
  cases run with
  | function => exact List.flatMap_append
  | @classDef s' d pos hierarchy _ _ notException declared members =>
    have isClass : ¬d.IsException exceptions := by
      rintro ⟨base, hbase, isException⟩
      exact notException base hbase ((known base).mpr isException)
    have methods : ∀ c, s'.hierarchy.ownMethods c =
        if c = d.name then memberNames d.body else s.hierarchy.ownMethods c := by
      intro c
      rw [members.ownMethods_eq]
      dsimp only
      rw [ownMethods_declareClass declared]
      by_cases same : c = d.name
      · rw [if_pos same, if_pos same, if_pos same, List.nil_append]
      · rw [if_neg same, if_neg same, if_neg same, List.append_nil]
    rw [Tree.Stmt.keys, if_neg isClass]
    dsimp only [Outline.keys, Outline.addDefinition]
    rw [List.flatMap_append, keys_congr (h := s.hierarchy) fun top htop c hc => ?_]
    · congr 1
      rw [List.flatMap_singleton, TopDefinition.keys, methods, if_pos rfl]
    -- an earlier class has another name, and keeps its methods
    · rw [methods, if_neg]
      rintro rfl
      exact fresh top htop _ hc rfl
  | @exception d pos base _ based isException =>
    have derived : d.IsException exceptions := ⟨base, based, (known base).mp isException⟩
    rw [Tree.Stmt.keys, if_pos derived, List.append_nil]
    dsimp only [Outline.keys, Outline.addDefinition]
    rw [List.flatMap_append]
    exact List.append_nil _
  | @main kind pos notFunction notClass =>
    cases kind with
    | functionDef d => exact absurd rfl (notFunction d)
    | classDef d => exact absurd rfl (notClass d)
    | _ => exact (List.append_nil _).symm
  | _ => exact (List.append_nil _).symm

theorem Outlines.definitions_eq (run : Outlines o s stmt o' s') :
    ∀ d ∈ o'.definitions, d ∈ o.definitions ∨ ∀ c ∈ d.className?, stmt.className? = some c := by
  have added : ∀ top : TopDefinition, (∀ c ∈ top.className?, stmt.className? = some c) →
      ∀ d ∈ o.definitions ++ [top],
        d ∈ o.definitions ∨ ∀ c ∈ d.className?, stmt.className? = some c := by
    intro top named d hd
    rcases List.mem_append.mp hd with hd | hd
    · exact .inl hd
    · rw [List.mem_singleton.mp hd]
      exact .inr named
  cases run with
  | @function d pos => exact added (.function d.name pos) fun c hc => nomatch hc
  | @classDef _ d pos => exact added (.classDef d.name d.baseName? pos) fun c hc => hc
  | @exception d _ base => exact added (.exception d.name _) fun c hc => nomatch hc
  | _ => exact fun d hd => .inl hd

theorem Outlines.phase?_eq (run : Outlines o s stmt o' s')
    (known : KnowsExceptions s.hierarchy exceptions) (key : DefKey) :
    s'.definitions.phase? key =
      if key ∈ (stmt.keys exceptions).map (·.1) then some .unresolved
      else s.definitions.phase? key := by
  cases run with
  | @function d pos =>
    refine (phase?_insert s.definitions (.function d.name) key d).trans ?_
    simp [Tree.Stmt.keys]
  | @classDef s' d pos hierarchy _ _ notException declared members =>
    have isClass : ¬d.IsException exceptions := by
      rintro ⟨base, hbase, isException⟩
      exact notException base hbase ((known base).mpr isException)
    rw [members.phase?_eq, Tree.Stmt.keys, if_neg isClass, List.map_map]
    rfl
  | @exception d pos base _ based isException =>
    have derived : d.IsException exceptions := ⟨base, based, (known base).mp isException⟩
    rw [Tree.Stmt.keys, if_pos derived]
    rfl
  | @main kind pos notFunction notClass =>
    cases kind with
    | functionDef d => exact absurd rfl (notFunction d)
    | classDef d => exact absurd rfl (notClass d)
    | _ => rfl
  | _ => rfl

theorem Outlines.keys_nodup (run : Outlines o s stmt o' s')
    (known : KnowsExceptions s.hierarchy exceptions) :
    ((stmt.keys exceptions).map (·.1)).Nodup := by
  cases run with
  | function => simp [Tree.Stmt.keys]
  | @classDef s' d pos hierarchy _ _ notException declared members =>
    have distinct := members.nodup (by
      dsimp only
      rw [ownMethods_declareClass declared, if_pos rfl]
      exact List.nodup_nil)
    have methods : s'.hierarchy.ownMethods d.name = memberNames d.body := by
      rw [members.ownMethods_eq, if_pos rfl, ownMethods_declareClass declared, if_pos rfl,
        List.nil_append]
    rw [methods] at distinct
    simp only [Tree.Stmt.keys]
    split
    · exact List.nodup_nil
    · rw [List.map_map]
      refine List.pairwise_map.mpr (distinct.imp fun differ same => differ ?_)
      cases same
      rfl
  | @exception d pos base _ based isException =>
    have derived : d.IsException exceptions := ⟨base, based, (known base).mp isException⟩
    rw [Tree.Stmt.keys, if_pos derived]
    exact List.nodup_nil
  | @main kind pos notFunction notClass =>
    cases kind with
    | functionDef d => exact absurd rfl (notFunction d)
    | classDef d => exact absurd rfl (notClass d)
    | _ => exact List.nodup_nil
  | _ => exact List.nodup_nil

/-! ## The whole outline -/

/-- A class is one with a name of its own. -/
theorem OutlinesAll.keys_eq (run : OutlinesAll o s stmts o' s')
    (known : KnowsExceptions s.hierarchy exceptions)
    (distinct : (stmts.filterMap Tree.Stmt.className?).Nodup)
    (fresh : ∀ d ∈ o.definitions, ∀ c ∈ d.className?, c ∉ stmts.filterMap Tree.Stmt.className?) :
    o'.keys s'.hierarchy = o.keys s.hierarchy ++ keysFrom exceptions stmts := by
  induction run generalizing exceptions with
  | nil => exact (List.append_nil _).symm
  | @cons o s stmt o₁ s₁ rest o' s' first _ ih =>
    have apart : ∀ c, stmt.className? = some c → c ∉ rest.filterMap Tree.Stmt.className? := by
      intro c named
      rw [List.filterMap_cons_some named] at distinct
      exact (List.nodup_cons.mp distinct).1
    have later := (List.sublist_cons_self stmt rest).filterMap Tree.Stmt.className?
    have head := first.keys_eq known fun d hd c hc named =>
      fresh d hd c hc (List.mem_filterMap.mpr ⟨stmt, List.mem_cons_self, named⟩)
    rw [ih (first.exceptions_eq known) ?_ ?_, head, keysFrom, List.append_assoc]
    · exact distinct.sublist later
    · intro d hd c hc again
      rcases first.definitions_eq d hd with before | named
      · exact fresh d before c hc (later.subset again)
      · exact apart c (named c hc) again

theorem OutlinesAll.phase?_eq (run : OutlinesAll o s stmts o' s')
    (known : KnowsExceptions s.hierarchy exceptions) (key : DefKey) :
    s'.definitions.phase? key =
      if key ∈ (keysFrom exceptions stmts).map (·.1) then some .unresolved
      else s.definitions.phase? key := by
  induction run generalizing exceptions with
  | nil => rfl
  | @cons o s stmt o₁ s₁ rest o' s' first _ ih =>
    rw [ih (first.exceptions_eq known), first.phase?_eq known, keysFrom, List.map_append]
    by_cases later : key ∈ (keysFrom (stmt.exceptions exceptions) rest).map (·.1)
    · rw [if_pos later, if_pos (List.mem_append_right _ later)]
    · by_cases now : key ∈ (stmt.keys exceptions).map (·.1)
      · rw [if_neg later, if_pos now, if_pos (List.mem_append_left _ now)]
      · rw [if_neg later, if_neg now, if_neg fun either =>
          (List.mem_append.mp either).elim now later]

/-- The key of a function or a method has its name, or that of its class. -/
theorem mem_keys {key : DefKey} (hkey : key ∈ (stmt.keys exceptions).map (·.1)) :
    (∃ name, stmt.functionName? = some name ∧ key = .function name) ∨
      ∃ c name, stmt.className? = some c ∧ key = .method c name := by
  obtain ⟨kind, pos⟩ := stmt
  cases kind with
  | functionDef d =>
    refine .inl ⟨d.name, rfl, ?_⟩
    simpa [Tree.Stmt.keys] using hkey
  | classDef d =>
    simp only [Tree.Stmt.keys] at hkey
    split at hkey
    · cases hkey
    · rw [List.map_map] at hkey
      obtain ⟨name, -, rfl⟩ := List.mem_map.mp hkey
      exact .inr ⟨d.name, name, rfl, rfl⟩
  | _ => cases hkey

theorem mem_keysFrom {key : DefKey} (hkey : key ∈ (keysFrom exceptions stmts).map (·.1)) :
    (∃ name ∈ stmts.filterMap Tree.Stmt.functionName?, key = .function name) ∨
      ∃ c ∈ stmts.filterMap Tree.Stmt.className?, ∃ name, key = .method c name := by
  induction stmts generalizing exceptions with
  | nil => cases hkey
  | cons stmt rest ih =>
    rw [keysFrom, List.map_append] at hkey
    rcases List.mem_append.mp hkey with now | later
    · rcases mem_keys now with ⟨name, named, same⟩ | ⟨c, name, named, same⟩
      · exact .inl ⟨name, List.mem_filterMap.mpr ⟨stmt, List.mem_cons_self, named⟩, same⟩
      · exact .inr ⟨c, List.mem_filterMap.mpr ⟨stmt, List.mem_cons_self, named⟩, name, same⟩
    · rcases ih later with ⟨name, hname, same⟩ | ⟨c, hc, name, same⟩
      · obtain ⟨st, hst, named⟩ := List.mem_filterMap.mp hname
        exact .inl ⟨name, List.mem_filterMap.mpr ⟨st, List.mem_cons_of_mem _ hst, named⟩, same⟩
      · obtain ⟨st, hst, named⟩ := List.mem_filterMap.mp hc
        exact .inr ⟨c, List.mem_filterMap.mpr ⟨st, List.mem_cons_of_mem _ hst, named⟩, name, same⟩

/-- Different definitions have different keys, if no name is declared twice. -/
theorem OutlinesAll.keys_nodup (run : OutlinesAll o s stmts o' s')
    (known : KnowsExceptions s.hierarchy exceptions)
    (functions : (stmts.filterMap Tree.Stmt.functionName?).Nodup)
    (classes : (stmts.filterMap Tree.Stmt.className?).Nodup) :
    ((keysFrom exceptions stmts).map (·.1)).Nodup := by
  induction run generalizing exceptions with
  | nil => exact List.nodup_nil
  | @cons o s stmt o₁ s₁ rest o' s' first _ ih =>
    have restFunctions := functions.sublist
      (List.Sublist.filterMap _ (List.sublist_cons_self stmt rest))
    have restClasses := classes.sublist
      (List.Sublist.filterMap _ (List.sublist_cons_self stmt rest))
    rw [keysFrom, List.map_append]
    refine List.nodup_append.mpr ⟨first.keys_nodup known,
      ih (first.exceptions_eq known) restFunctions restClasses, ?_⟩
    rintro key now _ later rfl
    rcases mem_keys now with ⟨name, named, rfl⟩ | ⟨c, name, named, rfl⟩
    · rw [List.filterMap_cons_some named] at functions
      rcases mem_keysFrom later with ⟨other, hother, same⟩ | ⟨_, _, _, same⟩
      · cases same
        exact (List.nodup_cons.mp functions).1 hother
      · cases same
    · rw [List.filterMap_cons_some named] at classes
      rcases mem_keysFrom later with ⟨_, _, same⟩ | ⟨other, hother, _, same⟩
      · cases same
      · cases same
        exact (List.nodup_cons.mp classes).1 hother

/-- A statement declares the name of its class, and no other. -/
theorem Outlines.isClass (run : Outlines o s stmt o' s') {c : String}
    (isClass : s'.hierarchy.isClass c ∨ s'.hierarchy.isCustomException c) :
    (s.hierarchy.isClass c ∨ s.hierarchy.isCustomException c) ∨ stmt.className? = some c := by
  cases run with
  | @classDef s' d pos hierarchy _ _ notException declared members =>
    have custom : s'.hierarchy.isCustomException c = s.hierarchy.isCustomException c := by
      unfold Hierarchy.isCustomException
      rw [members.sameBases.exceptions, exceptions_declareClass declared]
    rw [members.sameBases.isClass, custom] at isClass
    rcases isClass with isClass | isCustom
    · have either : c = d.name ∨ s.hierarchy.isClass c :=
        (Hierarchy.isClass_declareClass_iff declared).mp isClass
      exact either.elim (fun same => .inr (by rw [same]; rfl)) fun known => .inl (.inl known)
    · exact .inl (.inr isCustom)
  | @exception d pos base _ based derives =>
    rcases isClass with isClass | isCustom
    · exact .inl (.inl isClass)
    · by_cases same : c = d.name
      · exact .inr (by rw [same]; rfl)
      · refine .inl (.inr ?_)
        simpa [Hierarchy.isCustomException, Hierarchy.declareException, Table.contains,
          Table.find?_insert, same] using isCustom
  | _ => exact .inl isClass

theorem Outlines.founded (run : Outlines o s stmt o' s') (founded : s.hierarchy.Founded)
    (fresh : ∀ c, stmt.className? = some c →
      ¬(s.hierarchy.isClass c ∨ s.hierarchy.isCustomException c)) : s'.hierarchy.Founded := by
  cases run with
  | @classDef s' d pos hierarchy _ _ notException declared members =>
    have new := fresh d.name rfl
    have declaredFounded := founded.declareClass (fun known => new (.inl known)) declared
    exact declaredFounded.sameBases members.sameBases
  | @exception d pos base _ based derives =>
    have new := fresh d.name rfl
    exact founded.declareException (fun known => new (.inr known)) derives
  | _ => exact founded

/-- The classes and exceptions that some statements declare are new, each of them. -/
structure DeclaresNew (h : Hierarchy) (stmts : List Tree.Stmt) : Prop where
  distinct : (stmts.filterMap Tree.Stmt.className?).Nodup
  fresh : ∀ c ∈ stmts.filterMap Tree.Stmt.className?, ¬(h.isClass c ∨ h.isCustomException c)

namespace DeclaresNew

theorem empty (distinct : (stmts.filterMap Tree.Stmt.className?).Nodup) :
    DeclaresNew State.empty.hierarchy stmts :=
  ⟨distinct, fun _ _ known => known.elim (nomatch ·) (nomatch ·)⟩

theorem first {h : Hierarchy} {stmt : Tree.Stmt} (new : DeclaresNew h (stmt :: stmts)) {c : String}
    (named : stmt.className? = some c) : ¬(h.isClass c ∨ h.isCustomException c) :=
  new.fresh c (List.mem_filterMap.mpr ⟨stmt, List.mem_cons_self, named⟩)

theorem rest {stmt : Tree.Stmt} (new : DeclaresNew s.hierarchy (stmt :: stmts))
    (run : Outlines o s stmt o' s') : DeclaresNew s'.hierarchy stmts := by
  have later := (List.sublist_cons_self stmt stmts).filterMap Tree.Stmt.className?
  refine ⟨new.distinct.sublist later, fun c hc known => ?_⟩
  rcases run.isClass known with before | named
  · exact new.fresh c (later.subset hc) before
  · have distinct := new.distinct
    rw [List.filterMap_cons_some named] at distinct
    exact (List.nodup_cons.mp distinct).1 hc

end DeclaresNew

/-- If no class is declared twice, each one comes after its base. -/
theorem OutlinesAll.founded (run : OutlinesAll o s stmts o' s') (founded : s.hierarchy.Founded)
    (new : DeclaresNew s.hierarchy stmts) : s'.hierarchy.Founded := by
  induction run with
  | nil => exact founded
  | cons first _ ih => exact ih (first.founded founded fun _ => new.first) (new.rest first)

theorem knowsExceptions_empty : KnowsExceptions State.empty.hierarchy [Ty.exceptionName] := by
  intro id
  simp [State.empty, Hierarchy.empty, Hierarchy.isException, Hierarchy.isCustomException,
    Table.contains]

end Translate

end TreeTyper
