import TreeTyper.Translate.State

/-!
# What holds after a run

`Runs act s post stopped` says that `act`, started in the state `s`, ends with a
result and a state of which `post` holds, or stops in a state of which `stopped`
holds.  There is one rule for each primitive of a run; a sequence is taken apart
by `Runs.bind`.

    (act.run s) = (.ok a, s') → Runs act s post stopped → post a s'          (Runs.of_ok)
    (act.run s) = (.error e, s') → Runs act s post stopped → stopped e s'    (Runs.of_error)

A run that was computed has a result; `passes` tests it together with its state, and
a test may go on with the next run.
-/

namespace TreeTyper

variable {ε α : Type} {result : Except ε α}

theorem exists_of_isOk (isOk : result.isOk = true) : ∃ a, result = .ok a := by
  cases result with
  | ok a => exact ⟨a, rfl⟩
  | error e => cases isOk

theorem exists_of_any {test : α → Bool} (passed : result.toOption.any test = true) :
    ∃ a, result = .ok a ∧ test a = true := by
  cases result with
  | ok a => exact ⟨a, rfl, passed⟩
  | error e => cases passed

end TreeTyper

namespace TreeTyper.Translate

variable {α β : Type}

/-! ## Results -/

/-- Whether a run from `s` ends with a result and a state that pass a test. -/
def passes (act : Run α) (s : State) (test : α → State → Bool) : Bool :=
  match act.run s with
  | (.ok a, s') => test a s'
  | (.error _, _) => false

theorem exists_of_passes {act : Run α} {s : State} {test : α → State → Bool}
    (passed : passes act s test = true) :
    ∃ a s', act.run s = (.ok a, s') ∧ test a s' = true := by
  unfold passes at passed
  split at passed
  · next a s' run => exact ⟨a, s', run, passed⟩
  · cases passed

theorem exists_of_run_isOk {act : Run α} {s : State} (isOk : (act.run s).1.isOk = true) :
    ∃ a s', act.run s = (.ok a, s') := by
  rcases run : act.run s with ⟨result, s'⟩
  rw [run] at isOk
  obtain ⟨a, rfl⟩ := exists_of_isOk isOk
  exact ⟨a, s', rfl⟩

/-! ## Runs -/

/-- A stop that is no fault. -/
def Stop.IsFailure (stop : Stop) : Prop := ∀ f, stop ≠ .fault f

theorem Stop.IsFailure.locate {stop : Stop} (isFailure : stop.IsFailure) (pos : Pos) :
    (stop.locate pos).IsFailure := by
  cases stop with
  | failure cause location => exact fun _ => Stop.noConfusion
  | fault f => exact absurd rfl (isFailure f)

/-- From `s`, `act` ends as `post` says or stops as `stopped` says. -/
def Runs (act : Run α) (s : State) (post : α → State → Prop) (stopped : Stop → State → Prop) :
    Prop :=
  match act.run s with
  | (.ok a, s') => post a s'
  | (.error stop, s') => stopped stop s'

namespace Runs

variable {act : Run α} {s : State} {post post' : α → State → Prop}
  {stopped stopped' : Stop → State → Prop}

theorem of_ok (h : Runs act s post stopped) {a : α} {s' : State}
    (run : act.run s = (.ok a, s')) : post a s' := by
  unfold Runs at h
  rw [run] at h
  exact h

theorem of_error (h : Runs act s post stopped) {stop : Stop} {s' : State}
    (run : act.run s = (.error stop, s')) : stopped stop s' := by
  unfold Runs at h
  rw [run] at h
  exact h

theorem of_forall (ok : ∀ a s', act.run s = (.ok a, s') → post a s')
    (error : ∀ stop s', act.run s = (.error stop, s') → stopped stop s') :
    Runs act s post stopped := by
  unfold Runs
  split
  · next a s' run => exact ok a s' run
  · next stop s' run => exact error stop s' run

/-- What a run ends with is what it gives. -/
theorem of_run (h : Runs act s post stopped) :
    Runs act s (fun a s' => act.run s = (.ok a, s') ∧ post a s') stopped :=
  of_forall (fun _ _ run => ⟨run, h.of_ok run⟩) fun _ _ run => h.of_error run

theorem imp (h : Runs act s post stopped) (ok : ∀ a s', post a s' → post' a s')
    (error : ∀ stop s', stopped stop s' → stopped' stop s') : Runs act s post' stopped' :=
  of_forall (fun a s' run => ok a s' (h.of_ok run))
    fun stop s' run => error stop s' (h.of_error run)

/-- A run ends somehow. -/
theorem anyhow (act : Run α) (s : State) : Runs act s (fun _ _ => True) fun _ _ => True :=
  of_forall (fun _ _ _ => trivial) fun _ _ _ => trivial

theorem and (h : Runs act s post stopped) (h' : Runs act s post' stopped') :
    Runs act s (fun a s' => post a s' ∧ post' a s') fun stop s' =>
      stopped stop s' ∧ stopped' stop s' :=
  of_forall (fun _ _ run => ⟨h.of_ok run, h'.of_ok run⟩) fun _ _ run =>
    ⟨h.of_error run, h'.of_error run⟩

/-! ## Sequences -/

theorem pure {a : α} (h : post a s) : Runs (Pure.pure a) s post stopped := h

theorem run_bind_ok {f : α → Run β} {a : α} {s' : State} (run : act.run s = (.ok a, s')) :
    (act >>= f).run s = (f a).run s' := by
  change (match act.run s with | (r, s') => ExceptT.bindCont f r s') = _
  rw [run]
  rfl

theorem run_bind_error {f : α → Run β} {stop : Stop} {s' : State}
    (run : act.run s = (.error stop, s')) : (act >>= f).run s = (.error stop, s') := by
  change (match act.run s with | (r, s') => ExceptT.bindCont f r s') = _
  rw [run]
  rfl

/-- A run that ends has come through its first part. -/
theorem of_bind_ok {f : α → Run β} {b : β} {s' : State} (run : (act >>= f).run s = (.ok b, s')) :
    ∃ a s₁, act.run s = (.ok a, s₁) ∧ (f a).run s₁ = (.ok b, s') := by
  rcases first : act.run s with ⟨result, s₁⟩
  cases result with
  | ok a => exact ⟨a, s₁, rfl, (run_bind_ok first).symm.trans run⟩
  | error stop =>
    rw [run_bind_error first] at run
    cases run

theorem run_bind_iff {f : α → Run β} {b : β} {s' : State} :
    (act >>= f).run s = (.ok b, s') ↔
      ∃ a s₁, act.run s = (.ok a, s₁) ∧ (f a).run s₁ = (.ok b, s') :=
  ⟨of_bind_ok, fun ⟨_, _, first, rest⟩ => (run_bind_ok first).trans rest⟩

theorem bind {f : α → Run β} {after : β → State → Prop} (h : Runs act s post stopped)
    (next : ∀ a s', post a s' → Runs (f a) s' after stopped) :
    Runs (act >>= f) s after stopped := by
  unfold Runs
  rcases run : act.run s with ⟨result, s'⟩
  cases result with
  | ok a =>
    rw [run_bind_ok run]
    exact next a s' (h.of_ok run)
  | error stop =>
    rw [run_bind_error run]
    exact h.of_error run

theorem map {f : α → β} {after : β → State → Prop}
    (h : Runs act s (fun a s' => after (f a) s') stopped) : Runs (f <$> act) s after stopped := by
  rw [← bind_pure_comp]
  exact h.bind fun a s' ha => pure ha

/-! ## Primitives -/

theorem get {f : State → Run β} {after : β → State → Prop} (h : Runs (f s) s after stopped) :
    Runs (MonadState.get >>= f) s after stopped := h

theorem modify_bind {g : State → State} {f : PUnit → Run β} {after : β → State → Prop}
    (h : Runs (f ⟨⟩) (g s) after stopped) : Runs (modify g >>= f) s after stopped := h

theorem modify {g : State → State} {post : PUnit → State → Prop} (h : post ⟨⟩ (g s)) :
    Runs (modify g) s post stopped := h

theorem fail {cause : Cause} (h : stopped (.failure cause none) s) :
    Runs (fail cause) s post stopped := h

theorem failAt {pos : Pos} {cause : Cause} (h : stopped (.failure cause (some pos)) s) :
    Runs (failAt pos cause) s post stopped := h

theorem abort {fault : Fault} (h : stopped (.fault fault) s) :
    Runs (abort fault) s post stopped := h

theorem check {result : Except Cause α} (ok : ∀ a, result = .ok a → post a s)
    (error : ∀ cause, result = .error cause → stopped (.failure cause none) s) :
    Runs (check result) s post stopped := by
  cases result with
  | ok a => exact ok a rfl
  | error cause => exact error cause rfl

/-- A check that passes leaves the state alone. -/
theorem run_check_iff {result : Except Cause α} {a : α} {s' : State} :
    (Translate.check result).run s = (.ok a, s') ↔ result = .ok a ∧ s' = s := by
  cases result with
  | ok a' =>
    constructor
    · intro run
      cases run
      exact ⟨rfl, rfl⟩
    · rintro ⟨same, rfl⟩
      cases same
      rfl
  | error cause => exact ⟨(nomatch ·), (nomatch ·.1)⟩

/-- A position changes nothing for a run that ends. -/
theorem run_located_iff {pos : Pos} {a : α} {s' : State} :
    (located pos act).run s = (.ok a, s') ↔ act.run s = (.ok a, s') := by
  rw [Translate.located, ExceptT.run_mk]
  rcases act.run s with ⟨stop | a', s''⟩
  · constructor <;> intro stopped <;> cases stopped
  · rfl

theorem located {pos : Pos} (h : Runs act s post fun stop s' => stopped (stop.locate pos) s') :
    Runs (located pos act) s post stopped := by
  unfold Runs Translate.located
  rcases run : act.run s with ⟨result, s'⟩
  cases result with
  | ok a =>
    simp only [ExceptT.run_mk, run]
    exact h.of_ok run
  | error stop =>
    simp only [ExceptT.run_mk, run]
    exact h.of_error run

end Runs

/-! ## Primitives before another run -/

namespace Runs

variable {f : α → Run β} {s : State} {after : β → State → Prop} {stopped : Stop → State → Prop}

theorem failAt_bind {pos : Pos} {cause : Cause} (h : stopped (.failure cause (some pos)) s) :
    Runs (Translate.failAt pos cause >>= f) s after stopped := h

theorem check_bind {result : Except Cause α}
    (ok : ∀ a, result = .ok a → Runs (f a) s after stopped)
    (error : ∀ cause, result = .error cause → stopped (.failure cause none) s) :
    Runs (Translate.check result >>= f) s after stopped := by
  cases result with
  | ok a => exact ok a rfl
  | error cause => exact error cause rfl

theorem walk_bind {ends : Bool} {f : Unit → Run β} (ok : ends → Runs (f ()) s after stopped)
    (endless : ¬ends → stopped (.fault .endlessWalk) s) :
    Runs (Translate.walk ends >>= f) s after stopped := by
  cases ends with
  | true => exact ok rfl
  | false => exact endless Bool.false_ne_true

theorem walk_bind_of_ends {ends : Bool} (answers : ends) (f : Unit → Run β) :
    Translate.walk ends >>= f = f () := by
  rw [answers]
  rfl

/-- What comes behind walks along the bases runs only if they end. -/
theorem run_walk_bind_iff {ends : Bool} {f : Unit → Run β} {b : β} {s' : State} :
    (Translate.walk ends >>= f).run s = (.ok b, s') ↔ ends ∧ (f ()).run s = (.ok b, s') := by
  cases ends with
  | true => exact ⟨fun run => ⟨rfl, run⟩, fun ⟨_, run⟩ => run⟩
  | false => exact ⟨(nomatch ·), (nomatch ·.1)⟩

end Runs

/-! ## Scopes -/

/-- The state in which a new scope inside `parent` is open. -/
def State.opened (s : State) (parent : ScopeId) (bindings : List (String × Ty)) : State :=
  { s with scopes := (s.scopes.child parent bindings).1 }

/-- The state in which the scopes opened since there were `mark` are closed. -/
def State.closed (s : State) (mark : Nat) : State := { s with scopes := s.scopes.discard mark }

namespace Runs

variable {s : State} {post : α → State → Prop} {stopped : Stop → State → Prop}

theorem inScope {parent : ScopeId} {bindings : List (String × Ty)} {act : ScopeId → Run α}
    (h : Runs (act s.scopes.size) (s.opened parent bindings)
      (fun a s' => post a (s'.closed s.scopes.size))
      fun stop s' => stopped stop (s'.closed s.scopes.size)) :
    Runs (inScope parent bindings act) s post stopped := by
  unfold Runs
  have run_eq : (Translate.inScope parent bindings act).run s =
      (((act s.scopes.size).run (s.opened parent bindings)).1,
        ((act s.scopes.size).run (s.opened parent bindings)).2.closed s.scopes.size) := rfl
  rw [run_eq]
  rcases run : (act s.scopes.size).run (s.opened parent bindings) with ⟨result, s'⟩
  cases result with
  | ok a => exact h.of_ok run
  | error stop => exact h.of_error run

theorem requireAlive {id : ScopeId} {post : Unit → State → Prop}
    (ok : s.scopes.isAlive id → post () s)
    (dead : ¬s.scopes.isAlive id → stopped (.fault (.deadScope id)) s) :
    Runs (requireAlive id) s post stopped := by
  by_cases alive : s.scopes.isAlive id
  · unfold Translate.requireAlive
    refine get ?_
    rw [if_pos alive]
    exact pure (ok alive)
  · unfold Translate.requireAlive
    refine get ?_
    rw [if_neg alive]
    exact abort (dead alive)

theorem requireAlive_bind {id : ScopeId} {f : Unit → Run α}
    (ok : s.scopes.isAlive id → Runs (f ()) s post stopped)
    (dead : ¬s.scopes.isAlive id → stopped (.fault (.deadScope id)) s) :
    Runs (Translate.requireAlive id >>= f) s post stopped := by
  have alive : Runs (Translate.requireAlive id) s
      (fun _ s' => s' = s ∧ s.scopes.isAlive id) stopped :=
    requireAlive (fun h => ⟨rfl, h⟩) dead
  refine alive.bind fun _ s' h => ?_
  rw [h.1]
  exact ok h.2

theorem lookup {id : ScopeId} {name : String} {post : Option Ty → State → Prop}
    (ok : s.scopes.isAlive id → post (s.scopes.lookup id name) s)
    (dead : ¬s.scopes.isAlive id → stopped (.fault (.deadScope id)) s) :
    Runs (lookup id name) s post stopped :=
  requireAlive_bind (fun alive => get (pure (ok alive))) dead

/-- Looking a name up from an open scope changes nothing. -/
theorem run_lookup {id : ScopeId} (alive : s.scopes.isAlive id) (name : String) :
    (Translate.lookup id name).run s = (.ok (s.scopes.lookup id name), s) := by
  have read : Runs (Translate.lookup id name) s (fun found s' => found = s.scopes.lookup id name ∧
      s' = s) fun _ _ => False :=
    lookup (fun _ => ⟨rfl, rfl⟩) fun dead => dead alive
  rcases run : (Translate.lookup id name).run s with ⟨_ | found, s'⟩
  · exact (read.of_error run).elim
  · obtain ⟨rfl, rfl⟩ := read.of_ok run
    rfl

theorem define {id : ScopeId} {name : String} {ty : Ty} {post : PUnit → State → Prop}
    (ok : s.scopes.isAlive id → post ⟨⟩ { s with scopes := s.scopes.define id name ty })
    (dead : ¬s.scopes.isAlive id → stopped (.fault (.deadScope id)) s) :
    Runs (define id name ty) s post stopped :=
  requireAlive_bind (fun alive => modify (ok alive)) dead

theorem define_bind {id : ScopeId} {name : String} {ty : Ty} {f : PUnit → Run α}
    (ok : Runs (f ⟨⟩) { s with scopes := s.scopes.define id name ty } post stopped)
    (dead : ¬s.scopes.isAlive id → stopped (.fault (.deadScope id)) s) :
    Runs (Translate.define id name ty >>= f) s post stopped := by
  have defined : Runs (Translate.define id name ty) s
      (fun _ s' => s' = { s with scopes := s.scopes.define id name ty }) stopped :=
    define (fun _ => rfl) dead
  refine defined.bind fun _ s' same => ?_
  rw [same]
  exact ok

theorem assign {id : ScopeId} {name : String} {ty : Ty} {post : PUnit → State → Prop}
    (ok : s.scopes.isAlive id → post ⟨⟩ { s with scopes := s.scopes.assign id name ty })
    (dead : ¬s.scopes.isAlive id → stopped (.fault (.deadScope id)) s) :
    Runs (assign id name ty) s post stopped :=
  requireAlive_bind (fun alive => modify (ok alive)) dead

end Runs

end TreeTyper.Translate
