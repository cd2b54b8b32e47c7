import TreeTyper.Proofs.Law.Stmt

/-!
# Inference keeps every law

A body begins with one body less that can begin inside it, so the recursion is
on their number.

    L.Infers n (inferAt setting n)        (Law.inferAt_infers)
-/

namespace TreeTyper.Translate

open Typed

namespace Law

variable {setting : Setting} {L : Law setting} {n : Nat}

theorem sameShape_begin {s : State} {key : DefKey} {definition : Tree.FunctionDef}
    {definitions : Definitions} (begins : s.definitions.begin? key = some (definition, definitions)) :
    definitions.functions = s.definitions.functions := by
  unfold Definitions.begin? at begins
  split at begins
  · cases begins
    rfl
  · cases begins

/-- An unresolved definition begins without a fault. -/
theorem beginDefinition_runs {key : DefKey} {s : State}
    (unresolved : s.definitions.phase? key = some .unresolved) (stopped : Stop → State → Prop) :
    Runs (beginDefinition key) s
      (fun definition s' => ∃ definitions,
        s.definitions.begin? key = some (definition, definitions) ∧
        s' = { s with definitions, progress := s.progress ++ [Progress.began key] }) stopped := by
  have begins := (Definitions.begin?_isSome_iff s.definitions key).mpr unresolved
  unfold beginDefinition
  refine Runs.get ?_
  split
  · next missing =>
    rw [missing] at begins
    cases begins
  · next definition definitions begins => exact ⟨definitions, begins, rfl⟩

theorem finishDefinition_runs (key : DefKey) (cell : CellId) (names : List String)
    (block : List Stmt) (s : State) (stopped : Stop → State → Prop) :
    Runs (finishDefinition key cell names block) s
      (fun ret s' => ret = returnAfter key (s.cells.get cell) ∧
        s' = s.finished key cell names block) stopped :=
  ⟨rfl, rfl⟩

/-- How the translation of a body ends: its block keeps the law, and its routine is finished. -/
def BodyEnds (L : Law setting) (n : Nat) (s : State) (key : DefKey) (cell : CellId)
    (args params : List Ty) (ret : Ty) (s' : State) : Prop :=
  ∃ definition definitions s₁ block, Beginning s key cell args definition definitions params ∧
    L.At n (.ofBody s.scopes.size key cell) s₁ ∧
    L.Moves .stmt (.ofBody s.scopes.size key cell)
      (s.entered key cell definition definitions params) s₁ ∧
    (Translate.block ⟨setting, inferAt setting n⟩ definition.body
      ((Context.ofBody s.scopes.size key cell).last true)).run
      (s.entered key cell definition definitions params) = (.ok block, s₁) ∧
    L.KeepsBlock (.ofBody s.scopes.size key cell) s₁ block ∧
    ret = returnAfter key (s₁.cells.get cell) ∧
    s' = (s₁.closed s.scopes.size).finished key cell (parameterNames key definition) block

theorem inferBody_runs (infers : L.Infers n (inferAt setting n)) {s : State} {key : DefKey}
    {cell : CellId} {args params : List Ty} (inv : L.Inv (n + 1) s) (knows : L.Knows s key cell)
    (fine : ∀ t ∈ args, L.Fine t) (unresolved : s.definitions.phase? key = some .unresolved)
    (matched : matchParams s.hierarchy (s.cells.get cell).params args key.render = .ok params) :
    Runs (inferBody ⟨setting, inferAt setting n⟩ key cell params) s
      (L.BodyEnds n s key cell args params)
      (L.Stopped s) := by
  unfold inferBody
  refine (beginDefinition_runs unresolved _).bind ?_
  rintro definition s' ⟨definitions, begins, rfl⟩
  have beginning : Beginning s key cell args definition definitions params := ⟨matched, begins⟩
  obtain ⟨inside, here⟩ := L.enter inv knows fine beginning
  have admits : L.AdmitsBlock (some key) definition.body :=
    ⟨L.enter_binds inv beginning, L.enter_returns inv knows beginning,
      L.enter_faultless inv beginning⟩
  have translated : Runs (inScope Scopes.moduleScope
      (bodyBindings key (parameterNames key definition) params) fun scope =>
        block ⟨setting, inferAt setting n⟩ definition.body ((Context.ofBody scope key cell).last true))
      (s.begun key cell definitions params)
      (fun block s' => ∃ s₁, s' = s₁.closed s.scopes.size ∧
        L.At n (.ofBody s.scopes.size key cell) s₁ ∧
        L.Moves .stmt (.ofBody s.scopes.size key cell)
          (s.entered key cell definition definitions params) s₁ ∧
        (Translate.block ⟨setting, inferAt setting n⟩ definition.body
          ((Context.ofBody s.scopes.size key cell).last true)).run
          (s.entered key cell definition definitions params) = (.ok block, s₁) ∧
        L.KeepsBlock (.ofBody s.scopes.size key cell) s₁ block)
      (L.Stopped s) := by
    refine Runs.inScope (Runs.imp (block_holds infers definition.body
      ((Context.ofBody s.scopes.size key cell).last true) _ admits ⟨inside, here⟩).of_run ?_ ?_)
    · rintro block s₁ ⟨run, at₁, move, keeps⟩
      exact ⟨s₁, rfl, at₁, move, run, keeps⟩
    · intro stop s₁ stopped
      exact L.stop_entered inv beginning stopped
  -- the signature takes the types of the parameters before the scope opens
  change Runs (inScope Scopes.moduleScope
      (bodyBindings key (parameterNames key definition) params) (fun scope =>
        block ⟨setting, inferAt setting n⟩ definition.body ((Context.ofBody scope key cell).last true))
      >>= fun block => finishDefinition key cell (parameterNames key definition) block)
    (s.begun key cell definitions params) _ _
  refine translated.bind ?_
  rintro block s' ⟨s₁, rfl, at₁, move, run, keeps⟩
  refine Runs.imp (finishDefinition_runs key cell _ block _ (L.Stopped s)) ?_ fun _ _ h => h
  rintro ret s'' ⟨rfl, rfl⟩
  exact ⟨definition, definitions, s₁, block, beginning, at₁, move, run, keeps, rfl, rfl⟩

theorem inferCall_infers (infers : L.Infers n (inferAt setting n)) :
    L.Infers (n + 1) (inferAt setting (n + 1)) := by
  intro s key cell args pos inv knows fine
  change Runs (inferCall ⟨setting, inferAt setting n⟩ key cell args pos) s _ _
  unfold inferCall
  refine Runs.get (Runs.get (Runs.walk_bind (fun _ => ?_) fun endless =>
    L.stop_endless inv fun complete => endless (complete.classesEnd.matchParamsEnds ..)))
  have matches' : Runs (located pos
      (check (matchParams s.hierarchy (s.cells.get cell).params args key.render))) s
      (fun params s' => s' = s ∧
        matchParams s.hierarchy (s.cells.get cell).params args key.render = .ok params)
      (L.Stopped s) :=
    Runs.located (Runs.check (fun params matched => ⟨rfl, matched⟩) fun cause failed =>
      L.stop_locate pos (L.stop_failure fun _ => matchParams_answers _ _ _ _ cause failed))
  refine matches'.bind ?_
  rintro params s' ⟨same, matched⟩
  rw [same]
  refine Runs.get ?_
  -- answered from the cell: of a finished definition, or of one in progress with a result
  have answers : ∀ phase, s.definitions.phase? key = some phase →
      (phase = .resolved ∨ phase = .inProgress ∧ (s.cells.get cell).hasReturn) →
      Runs (do
          setSignature cell { s.cells.get cell with params }
          Translate.answer key cell args (s.cells.get cell).ret phase) s
        (fun ret s' => L.Inv (n + 1) s' ∧ L.Call s s' ∧ s.SameShape s' ∧
          L.Called s' key cell args ret ∧ s'.JustAnswered key cell args ret) (L.Stopped s) := by
    intro phase found answered
    obtain ⟨inv', call, called⟩ := L.answer inv knows fine matched found answered
    exact ⟨inv', call, ⟨.refl _, rfl⟩, called, phase, rfl⟩
  split
  · next phase => exact answers _ phase (.inl rfl)
  · next phase =>
    split
    · exact Runs.failAt (L.stop_failure fun _ => id)
    · next returned => exact answers _ phase (.inr ⟨rfl, by simpa using returned⟩)
  -- not begun yet: its body is translated now, one level of depth further down
  · next phase =>
    refine (inferBody_runs infers inv knows fine phase matched).bind ?_
    rintro ret s'
      ⟨definition, definitions, s₁, block, beginning, at₁, move, run, keeps, rfl, rfl⟩
    have shape : s.SameShape s₁ :=
      ⟨move.shape.hierarchy, move.shape.functions.trans (sameShape_begin beginning.begins)⟩
    obtain ⟨inv', call, called⟩ :=
      L.leave inv knows fine beginning run at₁.inv at₁.here move.rel shape keeps
    exact ⟨inv', call, ⟨shape.hierarchy, shape.functions⟩, called, _, rfl⟩
  · exact Runs.failAt (L.stop_failure fun _ => id)

/-- Inference keeps every law, whatever the number of bodies that can begin. -/
theorem inferAt_infers (n : Nat) : L.Infers n (inferAt setting n) := by
  induction n with
  | zero =>
    intro s key cell args pos inv _ fine
    exact Runs.abort (L.stop_depth inv)
  | succ n ih => exact inferCall_infers ih

end Law

end TreeTyper.Translate
