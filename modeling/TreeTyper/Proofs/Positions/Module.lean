import TreeTyper.Api.Standard
import TreeTyper.Proofs.Positions.Stmt
import TreeTyper.Translate.Module
import TreeTyper.Tree.Build

/-!
# Modules do not see positions

The outline of the relocated module is the relocated outline, and every position
that it keeps goes into stops alone.

    translate api (m.relocate f) = relocateResult f id (translate api m)   (translate_relocate)
-/

namespace TreeTyper.Translate

open Typed

variable {f : Relocation} {api : ApiTables}

def TopDefinition.relocate (f : Relocation) : TopDefinition → TopDefinition
  | function name pos => function name (f.node pos)
  | classDef name base pos => classDef name base (f.node pos)
  | exception name base => exception name base

def Outline.relocate (f : Relocation) (o : Outline) : Outline :=
  { o with
    definitions := o.definitions.map (TopDefinition.relocate f)
    main := Tree.Stmt.relocateAll f o.main }

namespace Outline

theorem addDefinition_relocate (o : Outline) (d : TopDefinition) :
    (o.addDefinition d).relocate f = (o.relocate f).addDefinition (d.relocate f) :=
  congrArg (fun definitions => { o.relocate f with definitions }) List.map_append

theorem addMain_relocate (o : Outline) (s : Tree.Stmt) :
    (o.addMain s).relocate f = (o.relocate f).addMain (s.relocate f) := by
  refine congrArg (fun main => { o.relocate f with main }) ?_
  change Tree.Stmt.relocateAll f (o.main ++ [s]) = Tree.Stmt.relocateAll f o.main ++ [s.relocate f]
  simp only [Tree.Stmt.relocateAll_eq_map, List.map_append, List.map_cons, List.map_nil]

@[simp] theorem isEmpty_definitions_relocate (o : Outline) :
    (o.relocate f).definitions.isEmpty = o.definitions.isEmpty :=
  List.isEmpty_map

@[simp] theorem isEmpty_main_relocate (o : Outline) :
    (o.relocate f).main.isEmpty = o.main.isEmpty :=
  Tree.Stmt.isEmpty_relocateAll o.main

end Outline

/-! ## Imports and constants -/

theorem declareImport_tracks (o : Outline) (names : List Tree.Alias) :
    TracksTo f (Outline.relocate f) (declareImport api o names)
      (declareImport api (o.relocate f) names) := by
  unfold declareImport
  rw [Outline.isEmpty_definitions_relocate, Outline.isEmpty_main_relocate]
  exact .ite rfl (.fail _) ((Tracks.check _).bindTo fun _ => .pure _)

theorem declareConstant_tracks (o : Outline) (name : String) (value : Tree.Expr) :
    TracksTo f (Outline.relocate f) (declareConstant api o name value)
      (declareConstant api (o.relocate f) name (value.relocate f)) := by
  unfold declareConstant
  rw [Outline.isEmpty_main_relocate, Tree.Expr.isLiteral_relocate, Tree.Expr.pos_relocate]
  refine .ite rfl (.fail _) (.ite rfl (.fail _) (.ite rfl (.failAt ..) ?_))
  refine (Tracks.expr (inferAt_tracks (o.setting api) 0) Context.ofModule value).bindTo
    fun init => ?_
  exact (Tracks.define ..).bindTo fun _ => .pure _

/-! ## Functions and classes -/

theorem unsupportedForm?_relocate (d : Tree.FunctionDef) :
    unsupportedForm? (d.relocate f) = unsupportedForm? d := by
  obtain ⟨name, ⟨args, vararg, kwonlyargs, kwDefaults, kwarg, defaults⟩, body, decorators⟩ := d
  simp only [unsupportedForm?, Tree.FunctionDef.relocate, Tree.Arguments.relocate,
    Tree.Expr.isEmpty_relocateAll, Option.isSome_map, List.isEmpty_map]

theorem declareFunction_relocate (definitions : Definitions) (cells : Cells)
    (d : Tree.FunctionDef) :
    (definitions.relocate f).declareFunction cells (d.relocate f) =
      ((definitions.declareFunction cells d).1.relocate f,
        (definitions.declareFunction cells d).2) := by
  have inserted := definitions.states.insert_mapValues (g := DefState.relocate f)
    (.function d.name) (.unresolved d)
  unfold Definitions.declareFunction
  rw [Tree.FunctionDef.name_relocate, Tree.FunctionDef.args_relocate, List.length_map]
  exact congrArg (fun states => (Definitions.mk states _, _, _)) inserted

namespace Tracks

theorem checkDefinition (pos : Pos) (d : Tree.FunctionDef) :
    Tracks f (checkDefinition pos d)
      (Translate.checkDefinition (f.node pos) (d.relocate f)) := by
  unfold Translate.checkDefinition
  rw [unsupportedForm?_relocate, Tree.FunctionDef.name_relocate]
  cases unsupportedForm? d with
  | some what => exact .failAt ..
  | none => exact .pure _

theorem declareFunction (pos : Pos) (d : Tree.FunctionDef) :
    Tracks f (declareFunction pos d)
      (Translate.declareFunction (f.node pos) (d.relocate f)) := by
  refine (checkDefinition pos d).bind fun _ => .modify fun s => ?_
  rw [State.definitions_relocate, State.cells_relocate, declareFunction_relocate]
  rfl

theorem declareMethod (pos : Pos) (className : String) (d : Tree.FunctionDef) :
    Tracks f (declareMethod pos className d)
      (Translate.declareMethod (f.node pos) className (d.relocate f)) := by
  have first : (d.relocate f).args.args.head?.map (·.name) = d.args.args.head?.map (·.name) := by
    rw [← List.head?_map, Tree.FunctionDef.args_relocate, Tree.name_arg_relocate, List.head?_map]
  unfold Translate.declareMethod
  rw [first]
  refine .ite rfl (.failAt ..) ((checkDefinition pos d).bind fun _ => .get fun s => ?_)
  rw [Tree.FunctionDef.name_relocate, Tree.FunctionDef.args_relocate, List.length_map,
    State.hierarchy_relocate, State.cells_relocate]
  refine .ite rfl (.failAt ..) ?_
  cases s.hierarchy.declareMethod s.cells className d.name (d.args.args.length - 1) with
  | none => exact .abort _
  | some declared =>
    refine .set ?_
    rw [State.definitions_relocate, Definitions.declareMethod_relocate]
    rfl

theorem declareMembers (className : String) (members : List Tree.Stmt) :
    Tracks f (declareMembers className members)
      (Translate.declareMembers className (Tree.Stmt.relocateAll f members)) := by
  induction members with
  | nil => exact .pure _
  | cons member rest ih =>
    obtain ⟨kind, pos⟩ := member
    unfold Translate.declareMembers
    simp only [Tree.Stmt.relocateAll, Tree.Stmt.relocate]
    cases kind with
    | functionDef d => exact (declareMethod pos className d).bind fun _ => ih
    | pass => exact ih
    | _ => exact (failAt ..).bind fun _ => ih

theorem ancestry (h : Hierarchy) (bases : List Tree.Expr) :
    Tracks f (ancestry h bases) (Translate.ancestry h (Tree.Expr.relocateAll f bases)) := by
  match bases with
  | [] => exact .pure _
  | [base] =>
    simp only [Translate.ancestry, Tree.Expr.relocateAll, Tree.Expr.kind_relocate,
      Tree.Expr.pos_relocate]
    cases base.kind with
    | name id => exact .ite rfl (.pure _) (.ite rfl (.pure _) (.failAt ..))
    | _ => exact .failAt ..
  | _ :: second :: _ =>
    simp only [Translate.ancestry, Tree.Expr.relocateAll, Tree.Expr.pos_relocate]
    exact .failAt ..

end Tracks

theorem declareClass_tracks (pos : Pos) (d : Tree.ClassDef) :
    TracksTo f (TopDefinition.relocate f) (declareClass pos d)
      (declareClass (f.node pos) (d.relocate f)) := by
  obtain ⟨name, bases, body, decorators⟩ := d
  simp only [declareClass, Tree.ClassDef.relocate, Tree.Expr.isEmpty_relocateAll]
  refine .ite rfl (.failAt ..) (.get fun s => ?_)
  rw [State.hierarchy_relocate]
  refine (Tracks.ancestry s.hierarchy bases).bindTo fun found => ?_
  cases found with
  | exception base => exact Tracks.bindTo (.modify fun _ => rfl) fun _ => .pure _
  | base base =>
    dsimp only
    cases s.hierarchy.declareClass name base with
    | none => exact .abort _
    | some hierarchy =>
      dsimp only
      refine Tracks.bindTo (.modify fun _ => rfl) fun _ => ?_
      exact (Tracks.declareMembers name body).bindTo fun _ => .pure _

/-! ## The pass -/

theorem assignedName?_relocate (targets : List Tree.Expr) :
    assignedName? (Tree.Expr.relocateAll f targets) =
      (assignedName? targets).map (Prod.map id f.node) := by
  match targets with
  | [] | _ :: _ :: _ => rfl
  | [target] =>
    simp only [assignedName?, Tree.Expr.relocateAll, Tree.Expr.name?_relocate,
      Tree.Expr.pos_relocate, Option.map_map]
    rfl

theorem outlineStmt_tracks (o : Outline) (s : Tree.Stmt) :
    TracksTo f (Outline.relocate f) (outlineStmt api o s)
      (outlineStmt api (o.relocate f) (s.relocate f)) := by
  have kept : TracksTo f (Outline.relocate f) (pure (o.addMain s))
      (pure ((o.relocate f).addMain (s.relocate f))) := by
    rw [← Outline.addMain_relocate]
    exact .pure _
  have added : ∀ d : TopDefinition, TracksTo f (Outline.relocate f) (pure (o.addDefinition d))
      (pure ((o.relocate f).addDefinition (d.relocate f))) := fun d => by
    rw [← Outline.addDefinition_relocate]
    exact .pure _
  obtain ⟨kind, pos⟩ := s
  cases kind with
  | importNames names => exact (declareImport_tracks o names).located pos
  | importFrom module names => exact .failAt ..
  | functionDef d =>
    refine (Tracks.declareFunction pos d).bindTo fun _ => ?_
    rw [Tree.FunctionDef.name_relocate]
    exact added _
  | classDef d =>
    simp only [outlineStmt, Tree.Stmt.relocate, Tree.StmtKind.relocate, ← bind_pure_comp]
    exact (declareClass_tracks pos d).bind added
  | assign targets value =>
    simp only [outlineStmt, Tree.Stmt.relocate, Tree.StmtKind.relocate, assignedName?_relocate]
    cases assignedName? targets with
    | none => exact kept
    | some found =>
      obtain ⟨id, place⟩ := found
      simp only [Option.map_some, Prod.map, id_eq]
      cases nameCase id with
      | snake => exact kept
      | mixed => exact .failAt ..
      | screaming => exact (declareConstant_tracks o id value).located place
  | _ => exact kept

theorem outlineFrom_tracks (o : Outline) (body : List Tree.Stmt) :
    TracksTo f (Outline.relocate f) (outlineFrom api o body)
      (outlineFrom api (o.relocate f) (Tree.Stmt.relocateAll f body)) := by
  induction body generalizing o with
  | nil => exact .pure _
  | cons s rest ih => exact (outlineStmt_tracks o s).bind ih

/-! ## The module -/

theorem pureFunctions_relocate (s : State) (definitions : List TopDefinition) :
    pureFunctions (s.relocate f) (definitions.map (TopDefinition.relocate f)) =
      (pureFunctions s definitions).map (Prod.map id (Prod.map id f.node)) := by
  unfold pureFunctions
  rw [List.filterMap_map, List.map_filterMap]
  refine congrArg (List.filterMap · definitions) (funext fun d => ?_)
  cases d with
  | function name pos =>
    dsimp only [Function.comp, TopDefinition.relocate]
    rw [State.definitions_relocate, Definitions.function?_relocate]
    cases s.definitions.function? name with
    | none => rfl
    | some cell =>
      by_cases needsNothing : (s.cells.get cell).params.isEmpty
      · refine (if_pos needsNothing).trans ?_
        simp only [if_pos needsNothing]
        rfl
      · refine (if_neg needsNothing).trans ?_
        simp only [if_neg needsNothing]
        rfl
  | classDef name base pos => rfl
  | exception name base => rfl

namespace Tracks

variable {t : Translator}

theorem inferPure (infers : t.infer.Tracks f) (unresolved : List (DefKey × CellId × Pos)) :
    Tracks f (inferPure t unresolved)
      (Translate.inferPure t (unresolved.map (Prod.map id (Prod.map id f.node)))) := by
  induction unresolved with
  | nil => exact .pure ()
  | cons entry rest ih =>
    obtain ⟨key, cell, pos⟩ := entry
    refine .get fun s => .ite ?_ ((infers key cell [] pos).bind fun _ => ih) ih
    rw [State.definitions_relocate, Definitions.phase?_relocate]
    rfl

theorem takeRoutine (pos : Pos) (key : DefKey) :
    Tracks f (takeRoutine pos key) (Translate.takeRoutine (f.node pos) key) := by
  unfold Translate.takeRoutine
  refine .get fun s => ?_
  rw [State.definitions_relocate, Definitions.takeResolved?_relocate]
  cases s.definitions.takeResolved? key with
  | some taken => exact .bind (.set rfl) fun _ => .pure _
  | none => exact .failAt ..

theorem takeRoutines (pos : Pos) (keys : List DefKey) :
    Tracks f (takeRoutines pos keys) (Translate.takeRoutines (f.node pos) keys) := by
  induction keys with
  | nil => exact .pure _
  | cons key rest ih => exact (takeRoutine pos key).bind fun _ => ih.bind fun _ => .pure _

theorem collectDefinition (d : TopDefinition) :
    Tracks f (collectDefinition d) (Translate.collectDefinition (d.relocate f)) := by
  cases d with
  | function name pos => exact (takeRoutine pos _).map
  | exception name base => exact .pure _
  | classDef name base pos => exact .get fun s => (takeRoutines pos _).bind fun _ => .pure _

theorem collectDefinitions (ds : List TopDefinition) :
    Tracks f (collectDefinitions ds)
      (Translate.collectDefinitions (ds.map (TopDefinition.relocate f))) := by
  induction ds with
  | nil => exact .pure _
  | cons d ds ih => exact (collectDefinition d).bind fun _ => ih.bind fun _ => .pure _

end Tracks

theorem mainBlock_tracks (m : Tree.Module) :
    TracksTo f (fun found => (found.1.relocate f, found.2)) (mainBlock api m)
      (mainBlock api (m.relocate f)) := by
  refine (outlineFrom_tracks Outline.empty m.body).bind fun o => .get fun s => ?_
  have infers : (translatorOf api o s.definitions.size).infer.Tracks f := inferAt_tracks _ _
  have unresolved : pureFunctions (s.relocate f) (o.relocate f).definitions =
      (pureFunctions s o.definitions).map (Prod.map id (Prod.map id f.node)) :=
    pureFunctions_relocate s o.definitions
  dsimp only
  rw [State.definitions_relocate, Definitions.size_relocate, unresolved]
  exact (Tracks.inferPure infers _).bindTo fun _ =>
    (block_tracks infers o.main Context.ofModule).bindTo fun _ => .pure _

theorem typedModule_tracks (m : Tree.Module) :
    Tracks f (typedModule api m) (typedModule api (m.relocate f)) :=
  (mainBlock_tracks m).bind fun _ => (Tracks.collectDefinitions _).bindTo fun _ =>
    .get fun _ => .pure _

end Translate

open Translate

theorem translate_relocate (api : ApiTables) (m : Tree.Module) (f : Relocation) :
    translate api (m.relocate f) = relocateResult f id (translate api m) :=
  congrArg Prod.fst ((typedModule_tracks m).same State.empty)

/-! ## Modules that differ in positions alone -/

/-- The relocation that tells no two places apart. -/
def Relocation.nowhere : Relocation := ⟨fun _ => ⟨0, 0⟩, fun _ => ⟨0, 0⟩⟩

/-- A module without its positions. -/
def Tree.Module.unplaced (m : Tree.Module) : Tree.Module := m.relocate .nowhere

/-- A failure without its position and its line of the source. -/
def Failure.unplaced (f : Failure) : Failure := { f with location := none, sourceLine := none }

theorem Failure.unplaced_withSource (f : Failure) (text : String) :
    (f.withSource text).unplaced = f.unplaced := by
  unfold withSource
  split <;> rfl

theorem Translate.Stop.unplaced_failure? (cause : Cause) (location : Option Pos)
    (source : Option String) :
    ((Stop.failure cause location).failure? source).map Failure.unplaced =
      some cause.failure.unplaced := by
  cases source with
  | none => rfl
  | some text => exact congrArg some (Failure.unplaced_withSource _ text)

theorem translate_ignores_positions (api : ApiTables) (m m' : Tree.Module)
    (same : m.unplaced = m'.unplaced) :
    (∃ typed, translate api m = .ok typed ∧ translate api m' = .ok typed) ∨
      ∃ stop stop', translate api m = .error stop ∧ translate api m' = .error stop' ∧
        (∀ fault, stop = .fault fault ↔ stop' = .fault fault) ∧
        ∀ text text', (stop.failure? text).map Failure.unplaced =
          (stop'.failure? text').map Failure.unplaced := by
  -- moved to one and the same position, both modules are the same
  have equal : relocateResult .nowhere id (translate api m) =
      relocateResult .nowhere id (translate api m') := by
    rw [← translate_relocate, ← translate_relocate]
    exact congrArg (translate api) same
  cases result : translate api m with
  | ok typed =>
    cases result' : translate api m' with
    | ok typed' =>
      rw [result, result'] at equal
      cases equal
      exact .inl ⟨typed, rfl, rfl⟩
    | error stop' =>
      rw [result, result'] at equal
      cases equal
  | error stop =>
    cases result' : translate api m' with
    | ok typed' =>
      rw [result, result'] at equal
      cases equal
    | error stop' =>
      rw [result, result'] at equal
      refine .inr ⟨stop, stop', rfl, rfl, ?_⟩
      cases stop with
      | failure cause location =>
        cases stop' with
        | failure cause' location' =>
          obtain ⟨rfl, -⟩ := Stop.failure.inj (Except.error.inj equal)
          refine ⟨fun _ => ⟨Stop.noConfusion, Stop.noConfusion⟩, fun text text' => ?_⟩
          rw [Stop.unplaced_failure?, Stop.unplaced_failure?]
        | fault fault => cases equal
      | fault fault =>
        cases stop' with
        | failure cause location => cases equal
        | fault fault' =>
          cases equal
          exact ⟨fun _ => Iff.rfl, fun _ _ => rfl⟩

open Tree.Build in
/-- A function whose call from `place` gives it an argument of another type. -/
def miscalledAt (place : Pos) : Tree.Module :=
  ⟨[define "twice" ["n"] [ret (some (binOp (name "n") .mult (int 2)))],
    exprStmt (call (name "twice") [int 1]),
    exprStmt (placeExpr (call (name "twice") [string "one"]) place)]⟩

theorem translate_ignores_positions_miscalled :
    (miscalledAt ⟨3, 0⟩).unplaced = (miscalledAt ⟨4, 2⟩).unplaced ∧ ∃ stop stop',
    translate ApiTables.standard (miscalledAt ⟨3, 0⟩) = .error stop ∧
    translate ApiTables.standard (miscalledAt ⟨4, 2⟩) = .error stop' ∧ stop ≠ stop' ∧
    ∀ text text',
      (stop.failure? text).map Failure.unplaced = (stop'.failure? text').map Failure.unplaced := by
  have places : (match translate ApiTables.standard (miscalledAt ⟨3, 0⟩),
        translate ApiTables.standard (miscalledAt ⟨4, 2⟩) with
      | .error stop, .error stop' => decide (stop ≠ stop')
      | _, _ => false) = true := by
    decide +kernel
  rcases translate_ignores_positions ApiTables.standard (miscalledAt ⟨3, 0⟩) (miscalledAt ⟨4, 2⟩)
    rfl with ⟨typed, translated, -⟩ | ⟨stop, stop', stopped, stopped', -, alike⟩
  · rw [translated] at places
    cases places
  · rw [stopped, stopped'] at places
    exact ⟨rfl, stop, stop', stopped, stopped', of_decide_eq_true places, alike⟩

end TreeTyper
