import TreeTyper.Proofs.Faultless
import TreeTyper.Proofs.Positions.Module
import TreeTyper.Proofs.Positions.Nodes

/-!
# Every failure has a place in the module

A statement gives its position to the failures inside it that have none, and what
is translated outside of statements fails at a position or inside of one; so every
failure has a position.  It is that of a node, since a relocation that moves no
node of the module does not move the failure either.

    Places (typedModule api m)                                        (typedModule_places)
    translate api m = .error (.failure cause (some pos)) → pos ∈ m.positions
                                                                      (mem_positions_of_failure)
-/

namespace TreeTyper

namespace Translate

open Typed

variable {α β : Type} {api : ApiTables} {t : Translator}

/-! ## Runs that stop at a position -/

/-- A stop that has a position if it is a failure. -/
def Stop.IsLocated : Stop → Prop
  | failure _ location => location.isSome
  | fault _ => True

/-- A run all of whose failures have a position. -/
structure Places (act : Run α) : Prop where
  runs : ∀ s, Runs act s (fun _ _ => True) fun stop _ => stop.IsLocated

namespace Places

variable {act : Run α} {next : α → Run β}

theorem pure (a : α) : Places (Pure.pure a) := ⟨fun _ => Runs.pure trivial⟩

theorem bind (first : Places act) (rest : ∀ a, Places (next a)) : Places (act >>= next) :=
  ⟨fun s => Runs.bind (first.runs s) fun a s' _ => (rest a).runs s'⟩

theorem map {g : α → β} (first : Places act) : Places (g <$> act) :=
  ⟨fun s => Runs.map (first.runs s)⟩

theorem get {next : State → Run β} (rest : ∀ s, Places (next s)) :
    Places (MonadState.get >>= next) :=
  ⟨fun s => Runs.get ((rest s).runs s)⟩

theorem modify (g : State → State) : Places (modify g) := ⟨fun _ => Runs.modify trivial⟩

theorem set (s : State) : Places (set s) := ⟨fun _ => trivial⟩

theorem failAt (pos : Pos) (cause : Cause) : Places (failAt pos cause : Run α) :=
  ⟨fun _ => Runs.failAt rfl⟩

theorem abort (fault : Fault) : Places (abort fault : Run α) := ⟨fun _ => Runs.abort trivial⟩

theorem walk_bind {ends : Bool} {next : Unit → Run β} (rest : Places (next ())) :
    Places (walk ends >>= next) :=
  ⟨fun s => Runs.walk_bind (fun _ => rest.runs s) fun _ => trivial⟩

/-- Whatever the run, its failures are at `pos` unless they are inside of it. -/
theorem located (pos : Pos) (act : Run α) : Places (located pos act) := by
  refine ⟨fun s => Runs.located ((Runs.anyhow act s).imp (fun _ _ _ => trivial) ?_)⟩
  intro stop _ _
  cases stop with
  | failure cause location => rfl
  | fault fault => trivial

theorem ite {c : Prop} [Decidable c] {act other : Run α} (yes : Places act) (no : Places other) :
    Places (if c then act else other) := by
  split
  · exact yes
  · exact no

theorem inScope {parent : ScopeId} {bindings : List (String × Ty)} {act : ScopeId → Run α}
    (inner : ∀ scope, Places (act scope)) : Places (inScope parent bindings act) :=
  ⟨fun _ => Runs.inScope ((inner _).runs _)⟩

end Places

/-! ## Bodies -/

theorem block_places (t : Translator) (body : List Tree.Stmt) (ctx : Context) :
    Places (block t body ctx) := by
  induction body with
  | nil =>
    rw [block]
    exact .pure _
  | cons s rest ih =>
    obtain ⟨kind, pos⟩ := s
    rw [block, stmt]
    exact (Places.located pos _).bind fun _ => ih.bind fun _ => .pure _

theorem inferBody_places (t : Translator) (key : DefKey) (cell : CellId) (params : List Ty) :
    Places (inferBody t key cell params) := by
  have began : Places (beginDefinition key) := by
    unfold beginDefinition
    refine .get fun s => ?_
    split
    · exact .abort _
    · exact (Places.set _).bind fun _ => .pure _
  unfold inferBody
  refine began.bind fun definition => .get fun _ => (Places.modify _).bind fun _ => ?_
  refine (Places.inScope fun scope => block_places ..).bind fun block => ?_
  exact .get fun _ => (Places.modify _).bind fun _ => (Places.modify _).bind fun _ => .pure _

theorem inferAt_places (setting : Setting) (n : Nat) (key : DefKey) (cell : CellId)
    (args : List Ty) (pos : Pos) : Places (inferAt setting n key cell args pos) := by
  have answered : ∀ ret phase, Places (answer key cell args ret phase) := fun _ _ =>
    .get fun _ => (Places.modify _).bind fun _ => .pure _
  cases n with
  | zero => exact .abort _
  | succ n =>
    unfold inferAt inferCall
    refine .get fun _ => .get fun _ => .walk_bind ?_
    refine (Places.located pos _).bind fun params => .get fun s => ?_
    cases s.definitions.phase? key with
    | none => exact .failAt ..
    | some phase =>
      cases phase with
      | resolved => exact (Places.modify _).bind fun _ => answered ..
      | inProgress =>
        exact .ite (.failAt ..) ((Places.modify _).bind fun _ => answered ..)
      | unresolved => exact (inferBody_places ..).bind fun _ => answered ..

/-! ## The outline -/

theorem checkDefinition_places (pos : Pos) (d : Tree.FunctionDef) :
    Places (checkDefinition pos d) := by
  unfold checkDefinition
  split
  · exact .failAt ..
  · exact .pure _

theorem declareMethod_places (pos : Pos) (className : String) (d : Tree.FunctionDef) :
    Places (declareMethod pos className d) := by
  unfold declareMethod
  refine .ite (.failAt ..) ((checkDefinition_places pos d).bind fun _ => .get fun s => ?_)
  refine .ite (.failAt ..) ?_
  split
  · exact .abort _
  · exact .set _

theorem declareMembers_places (className : String) (members : List Tree.Stmt) :
    Places (declareMembers className members) := by
  induction members with
  | nil => exact .pure _
  | cons member rest ih =>
    obtain ⟨kind, pos⟩ := member
    unfold declareMembers
    cases kind with
    | functionDef d => exact (declareMethod_places pos className d).bind fun _ => ih
    | pass => exact ih
    | _ => exact (Places.failAt ..).bind fun _ => ih

theorem declareClass_places (pos : Pos) (d : Tree.ClassDef) : Places (declareClass pos d) := by
  have related : ∀ h, Places (ancestry h d.bases) := by
    intro h
    unfold ancestry
    split
    · exact .pure _
    · split
      · exact .ite (.pure _) (.ite (.pure _) (.failAt ..))
      · exact .failAt ..
    · exact .failAt ..
  unfold declareClass
  refine .ite (.failAt ..) (.get fun s => (related _).bind fun found => ?_)
  cases found with
  | exception base => exact (Places.modify _).bind fun _ => .pure _
  | base base =>
    dsimp only
    split
    · exact .abort _
    · exact (Places.modify _).bind fun _ => (declareMembers_places ..).bind fun _ => .pure _

theorem outline_places (api : ApiTables) (m : Tree.Module) : Places (outline api m) := by
  have each : ∀ o s, Places (outlineStmt api o s) := by
    intro o s
    unfold outlineStmt
    split
    · exact .located ..
    · exact .failAt ..
    · exact ((checkDefinition_places ..).bind fun _ => .modify _).bind fun _ => .pure _
    · exact (declareClass_places ..).map
    · split
      · exact .pure _
      · split
        · exact .pure _
        · exact .failAt ..
        · exact .located ..
    · exact .pure _
  have all : ∀ body o, Places (outlineFrom api o body) := by
    intro body
    induction body with
    | nil => exact fun _ => .pure _
    | cons s rest ih => exact fun o => (each o s).bind ih
  exact all m.body _

/-! ## The module -/

theorem collectDefinitions_places (definitions : List TopDefinition) :
    Places (collectDefinitions definitions) := by
  have taken : ∀ pos key, Places (takeRoutine pos key) := by
    intro pos key
    unfold takeRoutine
    refine .get fun s => ?_
    split
    · exact (Places.set _).bind fun _ => .pure _
    · exact .failAt ..
  have takenAll : ∀ pos keys, Places (takeRoutines pos keys) := by
    intro pos keys
    induction keys with
    | nil => exact .pure _
    | cons key rest ih => exact (taken pos key).bind fun _ => ih.bind fun _ => .pure _
  induction definitions with
  | nil => exact .pure _
  | cons d rest ih =>
    refine Places.bind ?_ fun _ => ih.bind fun _ => .pure _
    cases d with
    | function name pos => exact (taken pos _).map
    | exception name base => exact .pure _
    | classDef name base pos => exact .get fun _ => (takenAll pos _).bind fun _ => .pure _

theorem typedModule_places (api : ApiTables) (m : Tree.Module) : Places (typedModule api m) := by
  have inferred : ∀ setting n unresolved,
      Places (inferPure ⟨setting, inferAt setting n⟩ unresolved) := by
    intro setting n unresolved
    induction unresolved with
    | nil => exact .pure _
    | cons entry rest ih =>
      exact .get fun _ => .ite ((inferAt_places ..).bind fun _ => ih) ih
  have main : Places (mainBlock api m) :=
    (outline_places api m).bind fun o => .get fun s => (inferred _ _ _).bind fun _ =>
      (block_places ..).bind fun _ => .pure _
  exact main.bind fun _ => (collectDefinitions_places _).bind fun _ => .get fun _ => .pure _

end Translate

/-! ## Top theorem -/

open Translate

/-- The failure does not move with a relocation of all places that are no node of the module. -/
theorem mem_positions_of_failure {api : ApiTables} {m : Tree.Module} {cause : Cause} {pos : Pos}
    (failed : translate api m = .error (.failure cause (some pos))) : pos ∈ m.positions := by
  by_contra elsewhere
  let moved : Pos := ⟨pos.line + 1, pos.col⟩
  let f : Relocation := ⟨fun p => if p = pos then moved else p, id⟩
  have fixes : Tree.Fixes f m.positions := by
    refine ⟨fun p node => if_neg fun same => elsewhere ?_, rfl⟩
    rw [← same]
    exact node
  have relocated := translate_relocate api m f
  rw [Tree.Module.relocate_of_fixed fixes, failed] at relocated
  have still : pos = f.node pos :=
    Option.some.inj (Stop.failure.inj (Except.error.inj relocated)).2
  have same : pos.line = pos.line + 1 := congrArg Pos.line (still.trans (if_pos rfl))
  exact absurd (UInt32.left_eq_add.mp same) (by decide)

theorem Cause.sourceLine_failure (cause : Cause) : cause.failure.sourceLine = none := by
  cases cause with
  | unknownAttribute ty attr known => cases known <;> rfl
  | _ => rfl

/-- The line of a position that is not among the lines of a text. -/
theorem LineIndex.line_of_missing {source : String} {n : UInt32}
    (missing : n = 0 ∨ (LineIndex.ofString source).starts.length < n.toNat) :
    (LineIndex.ofString source).line source n = none := by
  unfold line
  rw [lineStart?_eq_none_iff.mpr missing]
  rfl

theorem failures_are_located (api : ApiTables) (m : Tree.Module) (text : String) (stop : Stop)
    (stopped : translate api m = .error stop) :
    (∀ failure, stop.failure? (some text) = some failure → ∃ pos ∈ m.positions,
      failure.location = some pos ∧
      failure.sourceLine = (LineIndex.ofString text).line text pos.line ∧
      (pos.line = 0 ∨ (LineIndex.ofString text).starts.length < pos.line.toNat →
        failure.sourceLine = none)) ∧
    (stop.failure? (some text) = none → ¬m.faultless ∨ ¬m.classNames.Nodup) := by
  obtain ⟨s, run⟩ := run_of_translate stopped
  cases stop with
  | fault fault =>
    refine ⟨fun _ => nofun, fun _ => not_and_or.mp fun ⟨faultless, distinct⟩ => ?_⟩
    exact (typedModule_noFault api faultless distinct).of_error run fault rfl
  | failure cause location =>
    refine ⟨?_, nofun⟩
    have isLocated : location.isSome := ((typedModule_places api m).runs .empty).of_error run
    obtain ⟨pos, rfl⟩ := Option.isSome_iff_exists.mp isLocated
    rintro failure ⟨⟩
    have line : ({ cause.failure with location := some pos }.withSource text).sourceLine =
        (LineIndex.ofString text).line text pos.line := by
      unfold Failure.withSource
      rw [cause.sourceLine_failure]
    refine ⟨pos, mem_positions_of_failure stopped, ?_, line, fun missing => ?_⟩
    · unfold Failure.withSource
      split <;> rfl
    · rw [line, LineIndex.line_of_missing missing]

open Tree.Build in
/-- Two lines, of which the second reads a name that nothing defines. -/
def undefinedName : Tree.Module :=
  ⟨[assign (name "x") (int 1),
    placeStmt (exprStmt (placeExpr (binOp (name "x") .add (placeExpr (name "y") ⟨2, 4⟩)) ⟨2, 0⟩))
      ⟨2, 0⟩]⟩

theorem failures_are_located_undefinedName : ∃ stop,
    translate ApiTables.standard undefinedName = .error stop ∧
    (stop.failure? (some "x = 1\nx + y\n")).map (·.location) = some (some ⟨2, 4⟩) ∧
    ∀ failure, stop.failure? (some "x = 1\nx + y\n") = some failure →
      ∃ pos ∈ undefinedName.positions, failure.location = some pos ∧
        failure.sourceLine = (LineIndex.ofString "x = 1\nx + y\n").line "x = 1\nx + y\n" pos.line ∧
        (pos.line = 0 ∨ (LineIndex.ofString "x = 1\nx + y\n").starts.length < pos.line.toNat →
          failure.sourceLine = none) := by
  have place : (match translate ApiTables.standard undefinedName with
      | .error stop =>
        decide ((stop.failure? (some "x = 1\nx + y\n")).map (·.location) = some (some ⟨2, 4⟩))
      | .ok _ => false) = true := by
    decide +kernel
  rcases stopped : translate ApiTables.standard undefinedName with stop | typed
  · rw [stopped] at place
    exact ⟨stop, rfl, of_decide_eq_true place,
      (failures_are_located _ undefinedName _ stop stopped).1⟩
  · rw [stopped] at place
    cases place

end TreeTyper
