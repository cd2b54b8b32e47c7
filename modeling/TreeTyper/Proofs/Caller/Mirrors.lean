import TreeTyper.Proofs.Caller.Scopes
import TreeTyper.Proofs.Run
import TreeTyper.Translate.Context

/-!
# Runs of a body under different callers

`Mirrors locals s act act'` relates a run of a body to the run of the same body
under callers that have the scopes `locals`: both end with the same result, in
the same tables, with the scopes of the callers as they were.  There is one rule
for each primitive of a run; sequences are taken apart by `Mirrors.bind`.

    Mirrors locals s act act' →
      act'.run (s.calledFrom locals) = ((act.run s).1, (act.run s).2.calledFrom locals)
-/

namespace TreeTyper.Translate

open Scopes (moduleScope raise)

variable {α β : Type} {locals : List Scope} {s s' s'' : State}

/-! ## Definitions -/

/-- The state of a body when its callers have the scopes `locals`. -/
def State.calledFrom (s : State) (locals : List Scope) : State :=
  { s with scopes := s.scopes.calledFrom locals }

/-- A place in a body whose callers have the scopes `locals`. -/
def Context.calledFrom (ctx : Context) (locals : List Scope) : Context :=
  { ctx with scope := raise locals.length ctx.scope, body := raise locals.length ctx.body }

/-- A run keeps to the body: it closes the scopes it opens, and binds no new module names. -/
structure Confined (s s' : State) : Prop where
  size : s'.scopes.size = s.scopes.size
  names : ∀ name, (s'.scopes.lookupLocal moduleScope name).isSome =
    (s.scopes.lookupLocal moduleScope name).isSome

/-- The number of a scope of a body. -/
structure Own (id : ScopeId) (s : State) : Prop where
  notModule : id ≠ moduleScope
  alive : s.scopes.isAlive id

/-- A place inside a body. -/
structure Context.Inside (ctx : Context) (s : State) : Prop where
  scope : Own ctx.scope s
  body : Own ctx.body s

/-- `act'`, under callers that have the scopes `locals`, does what `act` does without them. -/
structure Mirrors (locals : List Scope) (s : State) (act act' : Run α) : Prop where
  same : act'.run (s.calledFrom locals) = ((act.run s).1, (act.run s).2.calledFrom locals)
  confined : Confined s (act.run s).2

namespace State

@[simp] theorem hierarchy_calledFrom (s : State) (locals : List Scope) :
    (s.calledFrom locals).hierarchy = s.hierarchy := rfl

@[simp] theorem cells_calledFrom (s : State) (locals : List Scope) :
    (s.calledFrom locals).cells = s.cells := rfl

@[simp] theorem definitions_calledFrom (s : State) (locals : List Scope) :
    (s.calledFrom locals).definitions = s.definitions := rfl

theorem closed_calledFrom {mark : Nat} (positive : 0 < mark) (le : mark ≤ s.scopes.size) :
    (s.calledFrom locals).closed (mark + locals.length) = (s.closed mark).calledFrom locals :=
  congrArg (fun scopes => { s with scopes }) (Scopes.discard_calledFrom positive le)

end State

namespace Confined

theorem refl (s : State) : Confined s s := ⟨rfl, fun _ => rfl⟩

theorem trans (a : Confined s s') (b : Confined s' s'') : Confined s s'' :=
  ⟨b.size.trans a.size, fun name => (b.names name).trans (a.names name)⟩

theorem of_scopes (same : s'.scopes = s.scopes) : Confined s s' :=
  ⟨by rw [same], fun _ => by rw [same]⟩

/-- A scope of the body that is closed again leaves no trace. -/
theorem closed {parent : ScopeId} {bindings : List (String × Ty)} (positive : 0 < s.scopes.size)
    (inner : Confined (s.opened parent bindings) s') :
    Confined s (s'.closed s.scopes.size) := by
  have size : s'.scopes.arena.length = s.scopes.arena.length + 1 := inner.size
  have nonempty : 0 < s.scopes.arena.length := positive
  have dropped : s'.scopes.arena.length - s.scopes.arena.length = 1 := by omega
  refine ⟨?_, fun name => ?_⟩
  · change (s'.scopes.arena.drop (s'.scopes.arena.length - s.scopes.arena.length)).length = _
    rw [List.length_drop, dropped, size]
    rfl
  · have names := inner.names name
    have outer : (s.opened parent bindings).scopes.lookupLocal moduleScope name =
        s.scopes.lookupLocal moduleScope name := by
      refine (Scopes.lookupLocal_cons ..).trans (if_neg ?_)
      exact Nat.ne_of_lt positive
    rw [outer] at names
    rw [← names]
    refine congrArg Option.isSome (Scopes.lookupLocal_drop ?_ name)
    change 0 < s'.scopes.arena.length - (s'.scopes.arena.length - s.scopes.arena.length)
    omega

end Confined

theorem Own.positive {id : ScopeId} (own : Own id s) : 0 < s.scopes.size :=
  Nat.zero_lt_of_lt (of_decide_eq_true own.alive)

theorem Own.confined {id : ScopeId} (own : Own id s) (confined : Confined s s') : Own id s' := by
  refine ⟨own.notModule, ?_⟩
  unfold Scopes.isAlive
  rw [confined.size]
  exact own.alive

theorem Context.Inside.positive {ctx : Context} (inside : ctx.Inside s) : 0 < s.scopes.size :=
  inside.scope.positive

theorem Context.Inside.opened {ctx : Context} (inside : ctx.Inside s) (parent : ScopeId)
    (bindings : List (String × Ty)) :
    (ctx.inScope s.scopes.size).Inside (s.opened parent bindings) := by
  refine ⟨⟨Nat.ne_of_gt inside.positive, decide_eq_true (Nat.lt_succ_self _)⟩,
    ⟨inside.body.notModule, decide_eq_true ?_⟩⟩
  exact Nat.lt_succ_of_lt (of_decide_eq_true inside.body.alive)

theorem Context.Inside.confined {ctx : Context} (inside : ctx.Inside s)
    (confined : Confined s s') : ctx.Inside s' :=
  ⟨inside.scope.confined confined, inside.body.confined confined⟩

namespace Mirrors

variable {act act' : Run α} {f f' : α → Run β}

/-! ## Sequences -/

theorem pure (a : α) : Mirrors locals s (Pure.pure a) (Pure.pure a) := ⟨rfl, .refl s⟩

theorem bind (h : Mirrors locals s act act')
    (next : ∀ a s', Confined s s' → Mirrors locals s' (f a) (f' a)) :
    Mirrors locals s (act >>= f) (act' >>= f') := by
  obtain ⟨same, confined⟩ := h
  rcases run : act.run s with ⟨result, s'⟩
  rw [run] at same confined
  cases result with
  | ok a =>
    obtain ⟨same', confined'⟩ := next a s' confined
    refine ⟨?_, ?_⟩
    · rw [Runs.run_bind_ok same, Runs.run_bind_ok run, same']
    · rw [Runs.run_bind_ok run]
      exact confined.trans confined'
  | error stop =>
    refine ⟨?_, ?_⟩
    · rw [Runs.run_bind_error same, Runs.run_bind_error run]
    · rw [Runs.run_bind_error run]
      exact confined

theorem map {f : α → β} (h : Mirrors locals s act act') :
    Mirrors locals s (f <$> act) (f <$> act') := by
  rw [← bind_pure_comp, ← bind_pure_comp]
  exact h.bind fun a _ _ => .pure (f a)

/-- A step that ends in both runs, with results that may differ in the numbers of scopes. -/
theorem step {a a' : α} (run : act.run s = (.ok a, s'))
    (run' : act'.run (s.calledFrom locals) = (.ok a', s'.calledFrom locals))
    (confined : Confined s s') (next : Mirrors locals s' (f a) (f' a')) :
    Mirrors locals s (act >>= f) (act' >>= f') := by
  refine ⟨?_, ?_⟩
  · rw [Runs.run_bind_ok run, Runs.run_bind_ok run']
    exact next.same
  · rw [Runs.run_bind_ok run]
    exact confined.trans next.confined

/-! ## Primitives -/

theorem get {f f' : State → Run β} (h : Mirrors locals s (f s) (f' (s.calledFrom locals))) :
    Mirrors locals s (MonadState.get >>= f) (MonadState.get >>= f') := ⟨h.same, h.confined⟩

theorem modify {g g' : State → State} (same : g' (s.calledFrom locals) = (g s).calledFrom locals)
    (confined : Confined s (g s)) : Mirrors locals s (modify g) (modify g') := by
  refine ⟨?_, confined⟩
  exact congrArg (Prod.mk (Except.ok PUnit.unit)) same

theorem fail (cause : Cause) : Mirrors locals s (fail cause : Run α) (Translate.fail cause) :=
  ⟨rfl, .refl s⟩

theorem failAt (pos : Pos) (cause : Cause) :
    Mirrors locals s (failAt pos cause : Run α) (Translate.failAt pos cause) := ⟨rfl, .refl s⟩

theorem abort (fault : Fault) : Mirrors locals s (abort fault : Run α) (Translate.abort fault) :=
  ⟨rfl, .refl s⟩

theorem check (result : Except Cause α) :
    Mirrors locals s (check result) (Translate.check result) := by
  cases result with
  | ok a => exact .pure a
  | error cause => exact .fail cause

theorem check_bind {result : Except Cause α} (next : ∀ a, Mirrors locals s (f a) (f' a)) :
    Mirrors locals s (Translate.check result >>= f) (Translate.check result >>= f') := by
  cases result with
  | ok a => exact ⟨(next a).same, (next a).confined⟩
  | error cause => exact ⟨rfl, .refl s⟩

theorem walk_bind {ends : Bool} {f f' : Unit → Run β} (next : Mirrors locals s (f ()) (f' ())) :
    Mirrors locals s (Translate.walk ends >>= f) (Translate.walk ends >>= f') := by
  cases ends with
  | true => exact ⟨next.same, next.confined⟩
  | false => exact ⟨rfl, .refl s⟩

theorem located {pos : Pos} (h : Mirrors locals s act act') :
    Mirrors locals s (located pos act) (Translate.located pos act') := by
  obtain ⟨same, confined⟩ := h
  rcases run : act.run s with ⟨result, s'⟩
  rw [run] at same confined
  cases result with
  | ok a =>
    refine ⟨?_, ?_⟩
    · simp only [Translate.located, ExceptT.run_mk, run, same]
    · simpa only [Translate.located, ExceptT.run_mk, run] using confined
  | error stop =>
    refine ⟨?_, ?_⟩
    · simp only [Translate.located, ExceptT.run_mk, run, same]
    · simpa only [Translate.located, ExceptT.run_mk, run] using confined

theorem ite {c c' : Prop} [Decidable c] [Decidable c'] {other other' : Run α} (same : c' = c)
    (yes : c → Mirrors locals s act act') (no : ¬c → Mirrors locals s other other') :
    Mirrors locals s (if c then act else other) (if c' then act' else other') := by
  subst same
  by_cases h : c'
  · rw [if_pos h, if_pos h]
    exact yes h
  · rw [if_neg h, if_neg h]
    exact no h

/-! ## Scopes -/

theorem run_requireAlive {id : ScopeId} (alive : s.scopes.isAlive id) (f : Unit → Run α) :
    (requireAlive id >>= f).run s = (f ()).run s := by
  refine Runs.run_bind_ok ?_
  change ((if s.scopes.isAlive id then Pure.pure () else Translate.abort (.deadScope id)).run s : _) = _
  rw [if_pos alive]
  rfl

theorem requireAlive_calledFrom {id : ScopeId} (own : Own id s) :
    (s.calledFrom locals).scopes.isAlive (raise locals.length id) := by
  have same := @Scopes.isAlive_calledFrom locals s.scopes own.positive id
  exact same.trans own.alive

theorem lookup_bind {id : ScopeId} {name : String} {f f' : Option Ty → Run β} (own : Own id s)
    (next : Mirrors locals s (f (s.scopes.lookup id name)) (f' (s.scopes.lookup id name))) :
    Mirrors locals s (lookup id name >>= f) (lookup (raise locals.length id) name >>= f') := by
  refine step (run_requireAlive own.alive _)
    ((run_requireAlive (requireAlive_calledFrom own) _).trans ?_) (.refl s) next
  exact congrArg (fun found => (Except.ok found, s.calledFrom locals))
    (Scopes.lookup_calledFrom own.positive id name)

theorem define {id : ScopeId} (own : Own id s) (name : String) (ty : Ty) :
    Mirrors locals s (define id name ty) (define (raise locals.length id) name ty) := by
  have defined : (Translate.define id name ty).run s =
      (.ok ⟨⟩, { s with scopes := s.scopes.define id name ty }) := run_requireAlive own.alive _
  refine ⟨?_, ?_⟩
  · rw [defined]
    refine (run_requireAlive (requireAlive_calledFrom own) _).trans ?_
    have same := @Scopes.define_calledFrom locals s.scopes own.positive id name ty
    exact congrArg (fun scopes => (Except.ok PUnit.unit, { s with scopes })) same
  · rw [defined]
    refine ⟨Scopes.size_define .., fun other => ?_⟩
    exact congrArg Option.isSome (Scopes.lookupLocal_define_of_ne own.notModule.symm ..)

theorem assign {id : ScopeId} (own : Own id s) (name : String) (ty : Ty) :
    Mirrors locals s (assign id name ty) (assign (raise locals.length id) name ty) := by
  have assigned : (Translate.assign id name ty).run s =
      (.ok ⟨⟩, { s with scopes := s.scopes.assign id name ty }) := run_requireAlive own.alive _
  refine ⟨?_, ?_⟩
  · rw [assigned]
    refine (run_requireAlive (requireAlive_calledFrom own) _).trans ?_
    have same := @Scopes.assign_calledFrom locals s.scopes own.positive id name ty
    exact congrArg (fun scopes => (Except.ok PUnit.unit, { s with scopes })) same
  · rw [assigned]
    refine ⟨Scopes.size_assign .., fun other => ?_⟩
    change ((s.scopes.assign id name ty).lookupLocal _ _).isSome = _
    unfold Scopes.assign
    cases resolved : s.scopes.resolve id name with
    | none =>
      exact congrArg Option.isSome (Scopes.lookupLocal_define_of_ne own.notModule.symm ..)
    | some found =>
      -- a module name that is refined was bound before
      obtain ⟨owner, old⟩ := found
      by_cases isModule : owner = moduleScope
      · have bound := (Scopes.lookupLocal_of_resolve resolved).1
        rw [isModule] at bound
        simp only [isModule]
        exact Scopes.isSome_lookupLocal_define ty (by rw [bound, Option.isSome_some]) other
      · exact congrArg Option.isSome (Scopes.lookupLocal_define_of_ne (Ne.symm isModule) ..)

/-- A local of a body belongs to a scope of the body. -/
theorem localOwner_bind {ctx : Context} {name : String} {f f' : Option ScopeId → Run β}
    (inside : ctx.Inside s)
    (next : ∀ owner, (∀ id ∈ owner, Own id s) →
      Mirrors locals s (f owner) (f' (owner.map (raise locals.length)))) :
    Mirrors locals s (localOwner ctx name >>= f)
      (localOwner (ctx.calledFrom locals) name >>= f') := by
  have raised : (ctx.calledFrom locals).body ≠ moduleScope := fun same =>
    inside.body.notModule (Scopes.raise_eq_module_iff.mp same)
  have run : (localOwner ctx name).run s =
      (.ok (s.scopes.resolveLocal ctx.scope name), s) := by
    refine (run_requireAlive inside.scope.alive _).trans ?_
    change ((if _ then _ else _ : Run _).run s : _) = _
    rw [if_pos inside.body.notModule]
    rfl
  have run' : (localOwner (ctx.calledFrom locals) name).run (s.calledFrom locals) =
      (.ok ((s.scopes.resolveLocal ctx.scope name).map (raise locals.length)),
        s.calledFrom locals) := by
    refine (run_requireAlive (requireAlive_calledFrom inside.scope) _).trans ?_
    change ((if _ then _ else _ : Run _).run (s.calledFrom locals) : _) = _
    rw [if_pos raised]
    exact congrArg (fun owner => (Except.ok owner, s.calledFrom locals))
      (Scopes.resolveLocal_calledFrom inside.positive ctx.scope name)
  refine step run run' (.refl s) (next _ fun id owned => ?_)
  -- an owner that was found is a scope of the body: a binding of the module is not local
  unfold Scopes.resolveLocal at owned
  split at owned
  · next owner ty resolved =>
    split at owned
    · cases owned
    · next notModule =>
      cases owned
      refine ⟨fun same => notModule ⟨same, inside.scope.notModule⟩, decide_eq_true ?_⟩
      exact (Scopes.lookupLocal_of_resolve resolved).2
  · cases owned

/-- A scope of the body, however many callers there are. -/
theorem inScope {parent : ScopeId} {bindings : List (String × Ty)} {act act' : ScopeId → Run α}
    (positive : 0 < s.scopes.size)
    (h : Mirrors locals (s.opened parent bindings) (act s.scopes.size)
      (act' (raise locals.length s.scopes.size))) :
    Mirrors locals s (inScope parent bindings act)
      (inScope (raise locals.length parent) bindings act') := by
  have opened : (s.calledFrom locals).scopes.child (raise locals.length parent) bindings =
      ((s.opened parent bindings).scopes.calledFrom locals, raise locals.length s.scopes.size) :=
    Scopes.child_calledFrom positive parent bindings
  have size : (s.calledFrom locals).scopes.size = s.scopes.size + locals.length :=
    Scopes.size_calledFrom positive
  have inner : ((act s.scopes.size).run (s.opened parent bindings)).2.scopes.size =
      s.scopes.size + 1 := h.confined.size
  refine ⟨?_, h.confined.closed positive⟩
  have run : (Translate.inScope (raise locals.length parent) bindings act').run
      (s.calledFrom locals) =
      (((act' (raise locals.length s.scopes.size)).run
          ((s.opened parent bindings).calledFrom locals)).1,
        ((act' (raise locals.length s.scopes.size)).run
          ((s.opened parent bindings).calledFrom locals)).2.closed
            (s.scopes.size + locals.length)) := by
    unfold Translate.inScope
    simp only [ExceptT.run_mk, opened, size]
    rfl
  rw [run, h.same]
  exact Prod.ext rfl (State.closed_calledFrom positive (by omega))

end Mirrors

end TreeTyper.Translate
