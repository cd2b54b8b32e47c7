import TreeTyper.Proofs.Declared
import TreeTyper.Proofs.Law.Basic
import TreeTyper.Proofs.Ordered

/-!
# Definitions and their signature cells

After the outline every definition that can be called has a cell.  Methods of
several classes can have one cell, but a constructor shares its cell with no other
definition, and a class that is declared once knows its methods by one cell each.

    OutlinesAll .empty .empty m.body o s → s.Linked                       (OutlinesAll.linked)
    … → o.classNames.count c ≤ 1 → s.Links (.method c f) cell → s.Links (.method c f) cell' →
      cell = cell'                                                        (KnowsMethods.unique)
-/

namespace TreeTyper.Translate

variable {s s' : State} {o o' : Outline} {names : List String}

/-! ## One declaration -/

section Declarations

variable {name className : String} {base : Option String} {arity : Nat} {key : DefKey}
  {cell cell' : CellId} {hierarchy : Hierarchy} {cells : Cells} {d : Tree.FunctionDef}

/-- A new class sees what its base sees. -/
theorem links_declareClass (declared : s.hierarchy.declareClass name base = some hierarchy)
    (links : State.Links { s with hierarchy } key cell) : s.Links key cell := by
  cases key with
  | function _ => exact links
  | method c m =>
    obtain ⟨seenBy, seen⟩ := links
    obtain ⟨h₁, methods, rfl, ⟨-, rfl, rfl⟩ | ⟨b, info, -, found, rfl, rfl⟩⟩ :=
      Hierarchy.declareClass_cases declared
    · rw [Hierarchy.methods_withClass] at seen
      split at seen
      · cases seen
      · exact ⟨seenBy, seen⟩
    · have inherited : s.hierarchy.methods b = info.methods.entries := by
        rw [Hierarchy.methods, found]
        rfl
      rw [Hierarchy.methods_withClass, Hierarchy.methods_withClass] at seen
      split at seen
      · exact ⟨b, inherited ▸ seen⟩
      split at seen
      · exact ⟨b, inherited ▸ seen⟩
      · exact ⟨seenBy, seen⟩

theorem method?_declareClass (declared : s.hierarchy.declareClass name base = some hierarchy)
    {c : String} (other : c ≠ name) (m : String) :
    hierarchy.method? c m = s.hierarchy.method? c m := by
  obtain ⟨h₁, methods, rfl, ⟨-, rfl, -⟩ | ⟨b, info, -, found, -, rfl⟩⟩ :=
    Hierarchy.declareClass_cases declared
  · rw [Hierarchy.method?_withClass, if_neg other]
  · rw [Hierarchy.method?_withClass, if_neg other, Hierarchy.method?_withClass]
    split
    · next same =>
      rw [same, Hierarchy.method?, found]
      rfl
    · rfl

/-- A method adds the link to its own cell. -/
theorem links_declareMethod
    (declared : s.hierarchy.declareMethod s.cells className d.name arity =
      some (hierarchy, cells, cell))
    (links : State.Links { s with
      hierarchy, cells, definitions := s.definitions.declareMethod className d } key cell') :
    key = .method className d.name ∧ cell' = cell ∨ s.Links key cell' := by
  cases key with
  | function _ => exact .inr links
  | method c m =>
    obtain ⟨seenBy, seen⟩ := links
    obtain ⟨info, found, rfl, -⟩ := Hierarchy.declareMethod_cases declared
    rw [Hierarchy.methods_withClass] at seen
    split at seen
    · rcases Table.eq_or_mem_of_mem_insertIn seen with same | seen
      · cases same
        exact .inl ⟨rfl, rfl⟩
      · refine .inr ⟨className, ?_⟩
        rw [Hierarchy.methods, found]
        exact seen
    · exact .inr ⟨seenBy, seen⟩

/-- A function adds the link to its own cell, which is new. -/
theorem links_declareFunction
    (links : State.Links { s with
      definitions := (s.definitions.declareFunction s.cells d).1
      cells := (s.definitions.declareFunction s.cells d).2.1 } key cell) :
    key = .function d.name ∧ cell = s.cells.contents.length ∨ s.Links key cell := by
  cases key with
  | function name =>
    change (s.definitions.functions.insert d.name s.cells.contents.length).find? name = _ at links
    rw [Table.find?_insert] at links
    split at links
    · next same =>
      cases links
      exact .inl ⟨congrArg DefKey.function same, rfl⟩
    · exact .inr links
  | method _ _ => exact .inr links

/-- The cell of a method is inherited or new, and that of a constructor is new. -/
theorem cell_declareMethod
    (declared : s.hierarchy.declareMethod s.cells className name arity =
      some (hierarchy, cells, cell)) :
    (cells = s.cells ∧ name ≠ Hierarchy.constructorName ∧ ∃ c, s.Links (.method c name) cell) ∨
      (cells = (s.cells.alloc (Signature.placeholder arity)).1 ∧
        cell = s.cells.contents.length) := by
  obtain ⟨info, found, rfl, ⟨entry, inherited, rfl, rfl, notConstructor⟩ | made⟩ :=
    Hierarchy.declareMethod_cases declared
  · refine .inl ⟨rfl, notConstructor, entry.definedIn, className, ?_⟩
    rw [Hierarchy.methods, found]
    exact Table.mem_of_findIn inherited
  · cases made
    exact .inr ⟨rfl, rfl⟩

theorem method?_declareMethod
    (declared : s.hierarchy.declareMethod s.cells className name arity =
      some (hierarchy, cells, cell)) (c m : String) :
    hierarchy.method? c m =
      if c = className ∧ m = name then some ⟨cell, className⟩ else s.hierarchy.method? c m := by
  obtain ⟨info, found, rfl, -⟩ := Hierarchy.declareMethod_cases declared
  rw [Hierarchy.method?_withClass, Table.find?_insert]
  by_cases sameClass : c = className
  · rw [if_pos sameClass]
    by_cases sameName : m = name
    · rw [if_pos sameName, if_pos ⟨sameClass, sameName⟩]
    · rw [if_neg sameName, if_neg fun both => sameName both.2, sameClass, Hierarchy.method?, found]
      rfl
  · rw [if_neg sameClass, if_neg fun both => sameClass both.1]

theorem ownMethods_declareMethod
    (declared : s.hierarchy.declareMethod s.cells className name arity =
      some (hierarchy, cells, cell)) (c : String) :
    hierarchy.ownMethods c =
      s.hierarchy.ownMethods c ++ if c = className then [name] else [] := by
  obtain ⟨info, found, rfl, -⟩ := Hierarchy.declareMethod_cases declared
  rw [Hierarchy.ownMethods_withClass]
  split
  · next same =>
    rw [same, Hierarchy.ownMethods, found]
    rfl
  · rw [List.append_nil]

end Declarations

/-! ## Cells that are made -/

/-- The same definition, or methods of one name. -/
def Alike (key key' : DefKey) : Prop :=
  key = key' ∨ ∃ c c' f, key = .method c f ∧ key' = .method c' f

theorem Alike.symm {key key' : DefKey} (alike : Alike key key') : Alike key' key := by
  rcases alike with rfl | ⟨c, c', f, rfl, rfl⟩
  · exact .inl rfl
  · exact .inr ⟨c', c, f, rfl, rfl⟩

/-- What is like a method is a method of its name. -/
theorem Alike.of_method {key : DefKey} {c f : String} (alike : Alike key (.method c f))
    (c' : String) : Alike key (.method c' f) := by
  rcases alike with rfl | ⟨_, _, _, rfl, same⟩
  · exact .inr ⟨c, c', f, rfl, rfl⟩
  · cases same
    exact .inr ⟨_, c', f, rfl, rfl⟩

/-- The cells of definitions are made; methods of one name can share one, and that of a constructor
belongs to it alone. -/
structure State.Linked (s : State) : Prop where
  made : ∀ {key cell}, s.Links key cell → cell < s.cells.contents.length
  alike : ∀ {key key' cell}, s.Links key cell → s.Links key' cell → Alike key key'
  alone : ∀ {c key cell}, s.Links (.method c Hierarchy.constructorName) cell → s.Links key cell →
    key = .method c Hierarchy.constructorName
  ordered : s.definitions.states.Ordered

namespace State.Linked

theorem empty : State.empty.Linked where
  made {key cell} links := by
    cases key with
    | function _ => cases links
    | method _ _ =>
      obtain ⟨seenBy, seen⟩ := links
      cases seen
  alike {key _ _} links := by
    cases key with
    | function _ => cases links
    | method _ _ =>
      obtain ⟨seenBy, seen⟩ := links
      cases seen
  alone {c key cell} links := by
    obtain ⟨seenBy, seen⟩ := links
    cases seen
  ordered := Table.ordered_empty

/-- Tables in which no definition has got another cell. -/
theorem of_links (linked : s.Linked) (links : ∀ {key cell}, s'.Links key cell → s.Links key cell)
    (cells : s'.cells = s.cells) (definitions : s'.definitions = s.definitions) : s'.Linked where
  made h := by
    rw [cells]
    exact linked.made (links h)
  alike h h' := linked.alike (links h) (links h')
  alone h h' := linked.alone (links h) (links h')
  ordered := by
    rw [definitions]
    exact linked.ordered

/-- The link to a new cell is the only one to it. -/
theorem of_alloc (linked : s.Linked) {arity : Nat} (new : DefKey)
    (links : ∀ {key cell}, s'.Links key cell →
      key = new ∧ cell = s.cells.contents.length ∨ s.Links key cell)
    (cells : s'.cells = (s.cells.alloc (Signature.placeholder arity)).1)
    (ordered : s'.definitions.states.Ordered) : s'.Linked where
  made {key cell} h := by
    have length : s'.cells.contents.length = s.cells.contents.length + 1 := by
      rw [cells]
      exact List.length_append
    rw [length]
    rcases links h with ⟨-, rfl⟩ | h
    · exact Nat.lt_succ_self _
    · exact Nat.lt_succ_of_lt (linked.made h)
  alike {key key' cell} h h' := by
    rcases links h with ⟨rfl, rfl⟩ | h
    · rcases links h' with ⟨rfl, -⟩ | h'
      · exact .inl rfl
      · exact absurd (linked.made h') (Nat.lt_irrefl _)
    · rcases links h' with ⟨-, rfl⟩ | h'
      · exact absurd (linked.made h) (Nat.lt_irrefl _)
      · exact linked.alike h h'
  alone {c key cell} h h' := by
    rcases links h with ⟨rfl, rfl⟩ | h
    · rcases links h' with ⟨rfl, -⟩ | h'
      · rfl
      · exact absurd (linked.made h') (Nat.lt_irrefl _)
    · rcases links h' with ⟨-, rfl⟩ | h'
      · exact absurd (linked.made h) (Nat.lt_irrefl _)
      · exact linked.alone h h'
  ordered := ordered

theorem declareFunction (linked : s.Linked) (d : Tree.FunctionDef) :
    State.Linked { s with
      definitions := (s.definitions.declareFunction s.cells d).1
      cells := (s.definitions.declareFunction s.cells d).2.1 } :=
  linked.of_alloc (.function d.name) links_declareFunction rfl (linked.ordered.insert ..)

theorem declareMethod (linked : s.Linked) {className : String} {d : Tree.FunctionDef}
    {arity : Nat} {hierarchy : Hierarchy} {cells : Cells} {cell : CellId}
    (declared : s.hierarchy.declareMethod s.cells className d.name arity =
      some (hierarchy, cells, cell)) :
    State.Linked { s with
      hierarchy, cells, definitions := s.definitions.declareMethod className d } := by
  have links := fun {key cell'} => @links_declareMethod s className arity key cell cell' hierarchy
    cells d declared
  have ordered := linked.ordered.insert (.method className d.name) (.unresolved d)
  rcases cell_declareMethod declared with ⟨rfl, notConstructor, c, inherited⟩ | ⟨same, rfl⟩
  · refine ⟨fun h => ?_, fun h h' => ?_, fun h h' => ?_, ordered⟩
    · rcases links h with ⟨-, rfl⟩ | h
      · exact linked.made inherited
      · exact linked.made h
    · rcases links h with ⟨rfl, rfl⟩ | h
      · rcases links h' with ⟨rfl, -⟩ | h'
        · exact .inl rfl
        · exact ((linked.alike h' inherited).of_method className).symm
      · rcases links h' with ⟨rfl, rfl⟩ | h'
        · exact (linked.alike h inherited).of_method className
        · exact linked.alike h h'
    · rcases links h with ⟨isNew, -⟩ | h
      · exact absurd (DefKey.method.inj isNew).2.symm notConstructor
      rcases links h' with ⟨-, rfl⟩ | h'
      · -- the inherited cell would be that of a constructor
        exact absurd (DefKey.method.inj (linked.alone h inherited)).2 notConstructor
      · exact linked.alone h h'
  · exact linked.of_alloc _ links same ordered

theorem members (linked : s.Linked) {className : String} {body : List Tree.Stmt}
    (run : Members className s body s') : s'.Linked := by
  induction run with
  | nil => exact linked
  | pass _ ih => exact ih linked
  | method _ _ declared _ ih => exact ih (linked.declareMethod declared)

theorem outlines (linked : s.Linked) {stmt : Tree.Stmt} (run : Outlines o s stmt o' s') :
    s'.Linked := by
  cases run with
  | imports => exact linked
  | constant _ => exact linked.of_links id rfl rfl
  | function => exact linked.declareFunction _
  | classDef _ _ _ declared run =>
    exact (linked.of_links (links_declareClass declared) rfl rfl).members run
  | exception => exact linked.of_links id rfl rfl
  | main => exact linked

end State.Linked

theorem OutlinesAll.linked {stmts : List Tree.Stmt} (run : OutlinesAll o s stmts o' s')
    (linked : s.Linked) : s'.Linked := by
  induction run with
  | nil => exact linked
  | cons first _ ih => exact ih (linked.outlines first)

/-! ## Classes that are declared once -/

/-- The classes of an outline, in source order. -/
def Outline.classNames (o : Outline) : List String := o.definitions.filterMap (·.className?)

/-- Where a method is seen its class was declared; a class that was declared once knows each of its
methods by the cell under which others see it. -/
structure State.KnowsMethods (names : List String) (s : State) : Prop where
  declared : ∀ {c m cell}, s.Links (.method c m) cell → c ∈ names
  own : ∀ {c m cell}, names.count c ≤ 1 → s.Links (.method c m) cell →
    s.hierarchy.method? c m = some ⟨cell, c⟩ ∧ m ∈ s.hierarchy.ownMethods c

namespace State.KnowsMethods

theorem empty : State.empty.KnowsMethods [] where
  declared := fun ⟨_, seen⟩ => nomatch seen
  own := fun _ ⟨_, seen⟩ => nomatch seen

/-- The methods of a class that is declared once have one cell each. -/
theorem unique (knows : s.KnowsMethods names) {c m : String} {cell cell' : CellId}
    (once : names.count c ≤ 1) (links : s.Links (.method c m) cell)
    (links' : s.Links (.method c m) cell') : cell = cell' := by
  have own := (knows.own once links).1.symm.trans (knows.own once links').1
  cases own
  rfl

theorem declareClass (knows : s.KnowsMethods names) {name : String} {base : Option String}
    {hierarchy : Hierarchy} (declared : s.hierarchy.declareClass name base = some hierarchy) :
    State.KnowsMethods (names ++ [name]) { s with hierarchy } where
  declared links := List.mem_append_left _ (knows.declared (links_declareClass declared links))
  own {c m cell} once links := by
    have before := links_declareClass declared links
    rw [List.count_append] at once
    have other : c ≠ name := by
      rintro rfl
      have earlier := List.count_pos_iff.mpr (knows.declared before)
      rw [List.count_singleton_self] at once
      omega
    obtain ⟨entry, written⟩ := knows.own (Nat.le_of_add_right_le once) before
    refine ⟨(method?_declareClass declared other m).trans entry, ?_⟩
    rw [ownMethods_declareClass declared, if_neg other]
    exact written

theorem declareMethod (knows : s.KnowsMethods names) {className : String} (isClass : className ∈ names)
    {d : Tree.FunctionDef} {arity : Nat} {hierarchy : Hierarchy} {cells : Cells} {cell : CellId}
    (fresh : d.name ∉ s.hierarchy.ownMethods className)
    (declared : s.hierarchy.declareMethod s.cells className d.name arity =
      some (hierarchy, cells, cell)) :
    State.KnowsMethods names { s with
      hierarchy, cells, definitions := s.definitions.declareMethod className d } where
  declared links := by
    rcases links_declareMethod declared links with ⟨same, -⟩ | links
    · rw [(DefKey.method.inj same).1]
      exact isClass
    · exact knows.declared links
  own {c m cell'} once links := by
    rw [method?_declareMethod declared, ownMethods_declareMethod declared]
    rcases links_declareMethod declared links with ⟨same, rfl⟩ | links
    · cases same
      simp
    · obtain ⟨entry, written⟩ := knows.own once links
      have other : ¬(c = className ∧ m = d.name) := by
        rintro ⟨rfl, rfl⟩
        exact fresh written
      rw [if_neg other]
      exact ⟨entry, List.mem_append_left _ written⟩

theorem members (knows : s.KnowsMethods names) {className : String} (isClass : className ∈ names)
    {body : List Tree.Stmt} (run : Members className s body s') : s'.KnowsMethods names := by
  induction run with
  | nil => exact knows
  | pass _ ih => exact ih knows
  | method _ fresh declared _ ih => exact ih (knows.declareMethod isClass fresh declared)

theorem outlines (knows : s.KnowsMethods o.classNames) {stmt : Tree.Stmt}
    (run : Outlines o s stmt o' s') : s'.KnowsMethods o'.classNames := by
  cases run with
  | imports => exact knows
  | constant _ => exact ⟨knows.declared, knows.own⟩
  | function =>
    rw [Outline.classNames, Outline.addDefinition, List.filterMap_append]
    simpa [TopDefinition.className?] using ⟨knows.declared, knows.own⟩
  | classDef _ _ _ declared run =>
    rw [Outline.classNames, Outline.addDefinition, List.filterMap_append]
    exact (knows.declareClass declared).members (by simp) run
  | exception =>
    rw [Outline.classNames, Outline.addDefinition, List.filterMap_append]
    simpa [TopDefinition.className?] using ⟨knows.declared, knows.own⟩
  | main => exact knows

end State.KnowsMethods

theorem OutlinesAll.knowsMethods {stmts : List Tree.Stmt} (run : OutlinesAll o s stmts o' s')
    (knows : s.KnowsMethods o.classNames) : s'.KnowsMethods o'.classNames := by
  induction run with
  | nil => exact knows
  | cons first _ ih => exact ih (knows.outlines first)

/-- The classes of an outline are declared. -/
theorem Outlines.isClass_classNames {stmt : Tree.Stmt} (run : Outlines o s stmt o' s')
    (known : ∀ c ∈ o.classNames, s.hierarchy.isClass c) :
    ∀ c ∈ o'.classNames, s'.hierarchy.isClass c := by
  intro c hc
  have before : c ∈ o.classNames → s'.hierarchy.isClass c := fun hc => run.isClass_of (known c hc)
  cases run with
  | @classDef _ d _ _ _ _ _ declared members =>
    rw [Outline.classNames, Outline.addDefinition, List.filterMap_append] at hc
    rcases List.mem_append.mp hc with hc | isNew
    · exact before hc
    · obtain rfl : c = d.name := by simpa [TopDefinition.className?] using isNew
      rw [members.sameBases.isClass]
      exact (Hierarchy.isClass_declareClass_iff declared).mpr (.inl rfl)
  | function | exception =>
    rw [Outline.classNames, Outline.addDefinition, List.filterMap_append] at hc
    exact before (by simpa [Outline.classNames, TopDefinition.className?] using hc)
  | _ => exact before hc

/-- A class that writes a method is declared. -/
theorem OutlinesAll.isClass_of_links {stmts : List Tree.Stmt}
    (run : OutlinesAll .empty .empty stmts o s) {c f : String} {cell : CellId}
    (links : s.Links (.method c f) cell) : s.hierarchy.isClass c := by
  have known : ∀ {o₁ s₁ o₂ s₂} {stmts : List Tree.Stmt}, OutlinesAll o₁ s₁ stmts o₂ s₂ →
      (∀ c ∈ o₁.classNames, s₁.hierarchy.isClass c) → ∀ c ∈ o₂.classNames, s₂.hierarchy.isClass c := by
    intro o₁ s₁ o₂ s₂ stmts run before
    induction run with
    | nil => exact before
    | cons first _ ih => exact ih (first.isClass_classNames before)
  exact known run (by simp [Outline.classNames, Outline.empty]) c
    ((run.knowsMethods .empty).declared links)

end TreeTyper.Translate
