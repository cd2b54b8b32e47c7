import TreeTyper.Proofs.Classes
import TreeTyper.Proofs.Definitions
import TreeTyper.Proofs.Literal
import TreeTyper.Translate.Module

/-!
# The outline of a module

`Outlines` lists what the first pass can do with a statement.  After the pass no
definition has begun: the tables hold the module scope, classes without
attributes, signatures of which nothing is known and unresolved definitions.

    OutlinesAll .empty .empty m.body o s → s.Untouched        (OutlinesAll.untouched)
-/

namespace TreeTyper

/-- The name that stands as the only base of a class. -/
def Tree.ClassDef.baseName? (d : Tree.ClassDef) : Option String :=
  match d.bases with
  | [base] => base.name?
  | _ => none

namespace Translate

/-- The constant that a statement of the top level introduces. -/
def constantName? (s : Tree.Stmt) : Option String :=
  match s.kind with
  | .assign targets _ =>
    (assignedName? targets).bind fun (id, _) => if nameCase id = .screaming then some id else none
  | _ => none

/-! ## Steps -/

/-- A method of a form that can be translated. -/
structure IsMethod (d : Tree.FunctionDef) : Prop where
  self : d.args.args.head?.map (·.name) = some "self"
  form : unsupportedForm? d = none

/-- What the members of a class do to the tables. -/
inductive Members (className : String) : State → List Tree.Stmt → State → Prop
  | nil {s} : Members className s [] s
  | pass {s s' pos rest} : Members className s rest s' →
      Members className s (⟨.pass, pos⟩ :: rest) s'
  | method {s s' d pos rest hierarchy cells cell} : IsMethod d →
      d.name ∉ s.hierarchy.ownMethods className →
      s.hierarchy.declareMethod s.cells className d.name (d.args.args.length - 1) =
        some (hierarchy, cells, cell) →
      Members className
        { s with hierarchy, cells, definitions := s.definitions.declareMethod className d } rest s' →
      Members className s (⟨.functionDef d, pos⟩ :: rest) s'

/-- What a statement of the top level does to the outline and the tables. -/
inductive Outlines : Outline → State → Tree.Stmt → Outline → State → Prop
  | imports {o s names pos found} :
      Outlines o s ⟨.importNames names, pos⟩ { o with imports := found } s
  | constant {o s targets value pos name init} : IsValue s.hierarchy init →
      constantName? ⟨.assign targets value, pos⟩ = some name →
      name ∉ o.constants.map (·.name) →
      Outlines o s ⟨.assign targets value, pos⟩
        { o with constants := o.constants ++ [⟨name, init⟩] }
        { s with scopes := s.scopes.define Scopes.moduleScope name init.type }
  | function {o s d pos} : unsupportedForm? d = none →
      Outlines o s ⟨.functionDef d, pos⟩ (o.addDefinition (.function d.name pos))
        { s with
          definitions := (s.definitions.declareFunction s.cells d).1
          cells := (s.definitions.declareFunction s.cells d).2.1 }
  | classDef {o s s' d pos hierarchy} : d.decorators = [] → (d.bases = [] ∨ d.baseName?.isSome) →
      (∀ base ∈ d.baseName?, ¬s.hierarchy.isException base) →
      s.hierarchy.declareClass d.name d.baseName? = some hierarchy →
      Members d.name { s with hierarchy } d.body s' →
      Outlines o s ⟨.classDef d, pos⟩ (o.addDefinition (.classDef d.name d.baseName? pos)) s'
  | exception {o s d pos base} : d.decorators = [] → d.baseName? = some base →
      s.hierarchy.isException base →
      Outlines o s ⟨.classDef d, pos⟩
        (o.addDefinition (.exception d.name (if base = Ty.exceptionName then none else some base)))
        { s with hierarchy := s.hierarchy.declareException d.name base }
  | main {o s kind pos} : (∀ d, kind ≠ .functionDef d) → (∀ d, kind ≠ .classDef d) →
      (∀ names, kind ≠ .importNames names) → constantName? ⟨kind, pos⟩ = none →
      Outlines o s ⟨kind, pos⟩ (o.addMain ⟨kind, pos⟩) s

/-- What some statements of the top level do, one after the other. -/
inductive OutlinesAll : Outline → State → List Tree.Stmt → Outline → State → Prop
  | nil {o s} : OutlinesAll o s [] o s
  | cons {o s stmt o₁ s₁ rest o' s'} : Outlines o s stmt o₁ s₁ → OutlinesAll o₁ s₁ rest o' s' →
      OutlinesAll o s (stmt :: rest) o' s'

/-- How the first pass stops: before any definition has begun. -/
def StopsEarly (s : State) (stop : Stop) (s' : State) : Prop :=
  s'.progress = s.progress ∧ stop ≠ .fault .depth

variable {api : ApiTables} {s s' : State} {o o' : Outline} {pos : Pos}

theorem StopsEarly.here {stop : Stop} (notDepth : stop ≠ .fault .depth) : StopsEarly s stop s :=
  ⟨rfl, notDepth⟩

theorem StopsEarly.locate {stop : Stop} (early : StopsEarly s stop s') (pos : Pos) :
    StopsEarly s (stop.locate pos) s' := by
  refine ⟨early.1, ?_⟩
  cases stop with
  | failure cause location => exact Stop.noConfusion
  | fault f => exact early.2

theorem declareConstant_runs (name : String) (value : Tree.Expr) :
    Runs (declareConstant api o name value) s
      (fun o' s' => ∃ init, IsValue s.hierarchy init ∧ name ∉ o.constants.map (·.name) ∧
        o' = { o with constants := o.constants ++ [⟨name, init⟩] } ∧
        s' = { s with scopes := s.scopes.define Scopes.moduleScope name init.type })
      (StopsEarly s) := by
  unfold declareConstant
  split
  · exact Runs.fail (.here Stop.noConfusion)
  next isNew =>
  have isNew : name ∉ o.constants.map (·.name) := by simpa using isNew
  split
  · exact Runs.fail (.here Stop.noConfusion)
  split
  · exact Runs.failAt (.here Stop.noConfusion)
  next isLiteral =>
  have isLiteral : value.isLiteral := by simpa using isLiteral
  have quiet := literal_isQuiet ⟨o.setting api, inferAt (o.setting api) 0⟩ value isLiteral False.elim
    Context.ofModule s False.elim
  refine Runs.bind (Runs.imp quiet (fun _ _ h => h) ?_) ?_
  · rintro stop s' ⟨rfl, notDepth, -⟩
    exact .here notDepth
  rintro init s' ⟨same, isValue⟩
  rw [same]
  refine Runs.define_bind ?_ fun _ => .here (by simp)
  exact Runs.pure ⟨init, isValue, isNew, rfl, rfl⟩

theorem checkDefinition_runs (pos : Pos) (d : Tree.FunctionDef) :
    Runs (checkDefinition pos d) s (fun _ s' => s' = s ∧ unsupportedForm? d = none)
      (StopsEarly s) := by
  unfold checkDefinition
  split
  · exact Runs.failAt (.here Stop.noConfusion)
  · next supported => exact Runs.pure ⟨rfl, supported⟩

theorem declareFunction_runs (pos : Pos) (d : Tree.FunctionDef) :
    Runs (declareFunction pos d) s
      (fun _ s' => unsupportedForm? d = none ∧ s' = { s with
        definitions := (s.definitions.declareFunction s.cells d).1
        cells := (s.definitions.declareFunction s.cells d).2.1 })
      (StopsEarly s) := by
  unfold declareFunction
  refine (checkDefinition_runs pos d).bind ?_
  rintro _ s' ⟨rfl, supported⟩
  exact Runs.modify ⟨supported, rfl⟩

theorem declareMethod_runs (pos : Pos) (className : String) (d : Tree.FunctionDef) :
    Runs (declareMethod pos className d) s
      (fun _ s' => IsMethod d ∧ d.name ∉ s.hierarchy.ownMethods className ∧
        ∃ hierarchy cells cell,
        s.hierarchy.declareMethod s.cells className d.name (d.args.args.length - 1) =
          some (hierarchy, cells, cell) ∧
        s' = { s with
          hierarchy, cells, definitions := s.definitions.declareMethod className d })
      (StopsEarly s) := by
  unfold declareMethod
  split
  · exact Runs.failAt (.here Stop.noConfusion)
  next self =>
  refine (checkDefinition_runs pos d).bind ?_
  rintro _ s' ⟨rfl, supported⟩
  refine Runs.get ?_
  split
  · exact Runs.failAt (.here Stop.noConfusion)
  next fresh =>
  split
  · exact Runs.abort (.here (by simp))
  · next hierarchy cells cell declared =>
    exact ⟨⟨Decidable.not_not.mp self, supported⟩, fresh, hierarchy, cells, cell, declared, rfl⟩

theorem declareMembers_runs (className : String) (body : List Tree.Stmt) :
    Runs (declareMembers className body) s (fun _ s' => Members className s body s')
      (StopsEarly s) := by
  induction body generalizing s with
  | nil => exact Runs.pure .nil
  | cons member rest ih =>
    obtain ⟨kind, pos⟩ := member
    unfold declareMembers
    cases kind with
    | functionDef d =>
      refine (declareMethod_runs pos className d).bind ?_
      rintro _ s' ⟨isMethod, fresh, hierarchy, cells, cell, declared, same⟩
      rw [same]
      refine Runs.imp ih ?_ fun _ _ early => early
      exact fun _ _ members => .method isMethod fresh declared members
    | pass => exact Runs.imp ih (fun _ _ members => .pass members) fun _ _ early => early
    | _ => exact Runs.failAt_bind (.here Stop.noConfusion)

theorem ancestry_runs (bases : List Tree.Expr) :
    Runs (ancestry s.hierarchy bases) s
      (fun found s' => s' = s ∧ ∀ d : Tree.ClassDef, d.bases = bases →
        match found with
        | .base name => d.baseName? = name ∧ (d.bases = [] ∨ d.baseName?.isSome) ∧
          ∀ base ∈ name, ¬s.hierarchy.isException base
        | .exception base => d.baseName? = some base ∧ s.hierarchy.isException base)
      (StopsEarly s) := by
  unfold ancestry
  split
  · refine Runs.pure ⟨rfl, fun d same => ⟨?_, .inl same, by simp⟩⟩
    rw [Tree.ClassDef.baseName?, same]
  · next base =>
    split
    · next id isName =>
      have named : base.name? = some id := by
        obtain ⟨kind, at_⟩ := base
        cases isName
        rfl
      split
      · next isException =>
        refine Runs.pure ⟨rfl, fun d same => ⟨?_, isException⟩⟩
        rw [Tree.ClassDef.baseName?, same]
        exact named
      split
      · next notException _ =>
        refine Runs.pure ⟨rfl, fun d same => ?_⟩
        have based : d.baseName? = some id := by
          rw [Tree.ClassDef.baseName?, same]
          exact named
        exact ⟨based, .inr (based ▸ rfl), by simpa using notException⟩
      · exact Runs.failAt (.here Stop.noConfusion)
    · exact Runs.failAt (.here Stop.noConfusion)
  · exact Runs.failAt (.here Stop.noConfusion)

theorem declareClass_runs (pos : Pos) (d : Tree.ClassDef) :
    Runs (o.addDefinition <$> declareClass pos d) s
      (fun o' s' => Outlines o s ⟨.classDef d, pos⟩ o' s') (StopsEarly s) := by
  refine Runs.map ?_
  unfold declareClass
  split
  · exact Runs.failAt (.here Stop.noConfusion)
  next undecorated =>
  have undecorated : d.decorators = [] := by simpa using undecorated
  refine Runs.get ((ancestry_runs d.bases).bind ?_)
  rintro found s' ⟨same, found_spec⟩
  rw [same]
  have spec := found_spec d rfl
  cases found with
  | exception base => exact Outlines.exception undecorated spec.1 spec.2
  | base base =>
    obtain ⟨rfl, based, notException⟩ := spec
    dsimp only
    split
    · exact Runs.abort (.here (by simp))
    · next hierarchy declared =>
      refine Runs.modify_bind ?_
      refine Runs.bind (Runs.imp (declareMembers_runs d.name d.body) (fun _ _ h => h) ?_) ?_
      · exact fun _ _ early => early
      intro _ s' members
      exact Runs.pure (.classDef undecorated based notException declared members)

theorem outlineStmt_runs (stmt : Tree.Stmt) :
    Runs (outlineStmt api o stmt) s (fun o' s' => Outlines o s stmt o' s') (StopsEarly s) := by
  obtain ⟨kind, pos⟩ := stmt
  unfold outlineStmt
  cases kind with
  | importNames names =>
    refine Runs.located ?_
    unfold declareImport
    split
    · exact Runs.fail ((StopsEarly.here Stop.noConfusion).locate pos)
    refine Runs.check_bind (fun found _ => Runs.pure .imports) fun cause _ => ?_
    exact (StopsEarly.here Stop.noConfusion).locate pos
  | importFrom module names => exact Runs.failAt (.here Stop.noConfusion)
  | functionDef d =>
    refine (declareFunction_runs pos d).bind ?_
    rintro _ s' ⟨supported, rfl⟩
    exact Runs.pure (.function supported)
  | classDef d => exact declareClass_runs pos d
  | assign targets value =>
    -- the case of the name decides: a constant, a statement of the main block, or a failure
    have constant : constantName? ⟨.assign targets value, pos⟩ =
        (assignedName? targets).bind fun (id, _) =>
          if nameCase id = .screaming then some id else none := rfl
    dsimp only
    split
    · next unnamed =>
      exact Runs.pure (.main (by simp) (by simp) (by simp) (by simp [constant, unnamed]))
    · next id at_ named =>
      split
      · next isSnake =>
        exact Runs.pure (.main (by simp) (by simp) (by simp) (by simp [constant, named, isSnake]))
      · exact Runs.failAt (.here Stop.noConfusion)
      next isScreaming =>
      · refine Runs.located (Runs.imp (declareConstant_runs id value) ?_ ?_)
        rotate_left
        · exact fun _ _ early => early.locate at_
        rintro o' s' ⟨init, isValue, isNew, rfl, rfl⟩
        exact .constant isValue (by simp [constant, named, isScreaming]) isNew
  | _ => exact Runs.pure (.main (by simp) (by simp) (by simp) rfl)

/-! ## The tables before the first body -/

/-- Tables of which nothing is known yet but the outline of the module. -/
structure State.Untouched (s : State) : Prop where
  scopes : ∃ bindings, s.scopes = ⟨[⟨bindings, none⟩]⟩ ∧
    ∀ name ty, bindings.find? name = some ty → s.hierarchy.Builds ty
  attributes : ∀ c info, s.hierarchy.classes.find? c = some info → info.attributes = []
  signatures : ∀ found ∈ s.cells.contents, ∃ arity, found = [Signature.placeholder arity]
  unresolved : ∀ entry ∈ s.definitions.states.entries, ∃ d, entry.2 = .unresolved d
  progress : s.progress = []
  calls : s.calls = []

namespace State.Untouched

theorem empty : State.empty.Untouched where
  scopes := ⟨Table.empty, rfl, by simp⟩
  attributes := by simp [State.empty, Hierarchy.empty]
  signatures := by simp [State.empty, Cells.empty]
  unresolved := by simp [State.empty, Definitions.empty, Table.empty]
  progress := rfl
  calls := rfl

theorem positive (untouched : s.Untouched) : 0 < s.scopes.size := by
  obtain ⟨bindings, same, -⟩ := untouched.scopes
  rw [same]
  exact Nat.one_pos

theorem define (untouched : s.Untouched) (name : String) {ty : Ty} (built : s.hierarchy.Builds ty) :
    State.Untouched { s with scopes := s.scopes.define Scopes.moduleScope name ty } := by
  obtain ⟨bindings, same, known⟩ := untouched.scopes
  refine { untouched with scopes := ⟨bindings.insert name ty, ?_, ?_⟩ }
  · rw [same]
    rfl
  · intro other found bound
    rw [Table.find?_insert] at bound
    split at bound
    · cases bound
      exact built
    · exact known other found bound

theorem unresolved_insert (untouched : s.Untouched) (key : DefKey) (d : Tree.FunctionDef) :
    ∀ entry ∈ (s.definitions.states.insert key (.unresolved d)).entries,
      ∃ d, entry.2 = .unresolved d := by
  intro entry hentry
  rcases Table.eq_or_mem_of_mem_insertIn hentry with rfl | hentry
  · exact ⟨d, rfl⟩
  · exact untouched.unresolved entry hentry

theorem signatures_alloc (untouched : s.Untouched) (arity : Nat) :
    ∀ found ∈ (s.cells.alloc (Signature.placeholder arity)).1.contents,
      ∃ arity, found = [Signature.placeholder arity] := by
  intro found hfound
  rcases List.mem_append.mp hfound with hfound | hfound
  · exact untouched.signatures found hfound
  · exact ⟨arity, List.mem_singleton.mp hfound⟩

theorem withClass (untouched : s.Untouched) (name : String) (info : ClassInfo)
    (bare : info.attributes = []) :
    State.Untouched { s with hierarchy := s.hierarchy.withClass name info } := by
  obtain ⟨bindings, same, known⟩ := untouched.scopes
  have more : ∀ c, s.hierarchy.isClass c → (s.hierarchy.withClass name info).isClass c := by
    intro c isClass
    rw [Hierarchy.isClass_withClass, isClass, Bool.or_true]
  refine { untouched with
    scopes := ⟨bindings, same, fun other ty bound => (known other ty bound).mono more⟩
    attributes := fun c found declared => ?_ }
  change (s.hierarchy.classes.insert name info).find? c = some found at declared
  rw [Table.find?_insert] at declared
  split at declared
  · cases declared
    exact bare
  · exact untouched.attributes c found declared

theorem declareFunction (untouched : s.Untouched) (d : Tree.FunctionDef) :
    State.Untouched { s with
      definitions := (s.definitions.declareFunction s.cells d).1
      cells := (s.definitions.declareFunction s.cells d).2.1 } :=
  { untouched with
    signatures := untouched.signatures_alloc _
    unresolved := untouched.unresolved_insert _ d }

theorem declareClass (untouched : s.Untouched) {name : String} {base : Option String}
    {hierarchy : Hierarchy} (declared : s.hierarchy.declareClass name base = some hierarchy) :
    State.Untouched { s with hierarchy } := by
  obtain ⟨h₁, methods, rfl, ⟨-, rfl, -⟩ | ⟨b, info, -, found, -, rfl⟩⟩ :=
    Hierarchy.declareClass_cases declared
  · exact untouched.withClass name _ rfl
  · have extended := untouched.withClass b { info with subclasses := info.subclasses ++ [name] }
      (untouched.attributes b info found)
    exact extended.withClass name _ rfl

theorem declareMethod (untouched : s.Untouched) {className : String} {d : Tree.FunctionDef}
    {arity : Nat} {hierarchy : Hierarchy} {cells : Cells} {cell : CellId}
    (declared : s.hierarchy.declareMethod s.cells className d.name arity =
      some (hierarchy, cells, cell)) :
    State.Untouched { s with
      hierarchy, cells, definitions := s.definitions.declareMethod className d } := by
  obtain ⟨info, found, rfl, chosen⟩ := Hierarchy.declareMethod_cases declared
  have classes := untouched.withClass className
    { info with
      methods := info.methods.insert d.name ⟨cell, className⟩
      ownMethods := info.ownMethods ++ [d.name] }
    (untouched.attributes className info found)
  have unresolved := untouched.unresolved_insert (.method className d.name) d
  rcases chosen with ⟨-, -, -, rfl, -⟩ | made
  · exact { classes with unresolved }
  · cases made
    exact { classes with signatures := untouched.signatures_alloc arity, unresolved }

theorem members (untouched : s.Untouched) {className : String} {body : List Tree.Stmt}
    (run : Members className s body s') : s'.Untouched := by
  induction run with
  | nil => exact untouched
  | pass _ ih => exact ih untouched
  | method _ _ declared _ ih => exact ih (untouched.declareMethod declared)

theorem outlines (untouched : s.Untouched) {stmt : Tree.Stmt} (run : Outlines o s stmt o' s') :
    s'.Untouched := by
  cases run with
  | imports => exact untouched
  | constant isValue => exact untouched.define _ isValue.root
  | function => exact untouched.declareFunction _
  | classDef _ _ _ declared run => exact (untouched.declareClass declared).members run
  | exception => exact { untouched with }
  | main => exact untouched

/-- All that was written to a cell is one signature of which nothing is known. -/
theorem written_cells (untouched : s.Untouched) {cell : CellId}
    (made : cell < s.cells.contents.length) :
    ∃ arity, s.cells.written cell = [Signature.placeholder arity] := by
  rw [Cells.written, List.getD_eq_getElem?_getD, List.getElem?_eq_getElem made]
  exact untouched.signatures _ (List.getElem_mem made)

/-- The signature in a cell, whether it was made or not. -/
theorem get_cells (untouched : s.Untouched) (cell : CellId) :
    ∃ arity, s.cells.get cell = Signature.placeholder arity := by
  unfold Cells.get
  by_cases made : cell < s.cells.contents.length
  · obtain ⟨arity, same⟩ := untouched.written_cells made
    exact ⟨arity, by rw [same]; rfl⟩
  · refine ⟨0, ?_⟩
    rw [Cells.written, List.getD_eq_getElem?_getD, List.getElem?_eq_none (Nat.le_of_not_lt made)]
    rfl

theorem ownAttributes_eq (untouched : s.Untouched) (c : String) :
    s.hierarchy.ownAttributes c = [] := by
  unfold Hierarchy.ownAttributes
  cases found : s.hierarchy.classes.find? c with
  | none => rfl
  | some info => exact untouched.attributes c info found

theorem not_finished (untouched : s.Untouched) {key : DefKey} {r : Typed.Routine} :
    ¬s.definitions.Finished key r := by
  intro finished
  obtain ⟨d, same⟩ := untouched.unresolved _ finished
  cases same

end State.Untouched

/-! ## The pass -/

theorem Members.sameBases {className : String} {body : List Tree.Stmt}
    (run : Members className s body s') : s.hierarchy.SameBases s'.hierarchy := by
  induction run with
  | nil => exact .refl _
  | pass _ ih => exact ih
  | @method s s' d pos rest hierarchy cells cell _ _ declared _ ih =>
    obtain ⟨info, found, rfl, -⟩ := Hierarchy.declareMethod_cases declared
    have first := Hierarchy.SameBases.withClass
      { info with
        methods := info.methods.insert d.name ⟨cell, className⟩
        ownMethods := info.ownMethods ++ [d.name] } found rfl
    exact first.trans ih

/-- No class is lost. -/
theorem Outlines.isClass_of {stmt : Tree.Stmt} (run : Outlines o s stmt o' s') {c : String}
    (isClass : s.hierarchy.isClass c) : s'.hierarchy.isClass c := by
  cases run with
  | classDef _ _ _ declared members =>
    rw [members.sameBases.isClass]
    exact (Hierarchy.isClass_declareClass_iff declared).mpr (.inr isClass)
  | _ => exact isClass

theorem Members.progress_eq {className : String} {body : List Tree.Stmt}
    (run : Members className s body s') : s'.progress = s.progress := by
  induction run with
  | nil => rfl
  | pass _ ih => exact ih
  | method _ _ _ _ ih => exact ih

theorem Outlines.progress_eq {stmt : Tree.Stmt} (run : Outlines o s stmt o' s') :
    s'.progress = s.progress := by
  cases run with
  | classDef _ _ _ _ members => exact members.progress_eq
  | _ => rfl

theorem outlineFrom_runs (stmts : List Tree.Stmt) :
    Runs (outlineFrom api o stmts) s (fun o' s' => OutlinesAll o s stmts o' s') (StopsEarly s) := by
  induction stmts generalizing s o with
  | nil => exact Runs.pure .nil
  | cons stmt rest ih =>
    refine (outlineStmt_runs stmt).bind fun o₁ s₁ run => ?_
    refine Runs.imp ih (fun _ _ others => .cons run others) fun stop s' early => ?_
    exact ⟨early.1.trans run.progress_eq, early.2⟩

theorem outline_runs (m : Tree.Module) :
    Runs (outline api m) .empty (fun o s => OutlinesAll .empty .empty m.body o s)
      (StopsEarly .empty) :=
  outlineFrom_runs m.body

theorem OutlinesAll.untouched {stmts : List Tree.Stmt} (run : OutlinesAll o s stmts o' s')
    (untouched : s.Untouched) : s'.Untouched := by
  induction run with
  | nil => exact untouched
  | cons first _ ih => exact ih (untouched.outlines first)

/-- The initial values of constants are values. -/
theorem OutlinesAll.constants {stmts : List Tree.Stmt} (run : OutlinesAll o s stmts o' s')
    (known : ∀ c ∈ o.constants, IsValue s.hierarchy c.init) :
    ∀ c ∈ o'.constants, IsValue s'.hierarchy c.init := by
  induction run with
  | nil => exact known
  | cons first _ ih =>
    refine ih fun c hc => ?_
    have before : c ∈ _ → IsValue _ c.init := fun hc => (known c hc).mono fun _ => first.isClass_of
    cases first with
    | constant isValue =>
      rcases List.mem_append.mp hc with hc | hc
      · exact before hc
      · rw [List.mem_singleton.mp hc]
        exact isValue
    | _ => exact before hc

end Translate

end TreeTyper
