import TreeTyper.Proofs.Law.Infer

/-!
# More about finished bodies

What holds of the definitions that are finished, of the calls and of the signatures
can be added to a law: only the end of a body says more than before, all else has to
keep what was known.

    (L.also A).Inv n s ↔ L.Inv n s ∧ A.Inv s
-/

namespace TreeTyper.Translate

open Typed

namespace Law

variable {setting : Setting}

/-- What is added to the invariant of a law. -/
structure Addition (L : Law setting) where
  Inv : State → Prop
  /-- It is not about scopes. -/
  same : ∀ {s s'}, Inv s → s'.hierarchy = s.hierarchy → s'.cells = s.cells →
    s'.definitions = s.definitions → s'.calls = s.calls → Inv s'
  moves : ∀ {m σ s s'}, Inv s → L.Moves m σ s s' → s'.definitions = s.definitions →
    s.calls ⊆ s'.calls → Inv s'
  enter : ∀ {n s key cell args definition definitions params}, L.Inv (n + 1) s → Inv s →
    L.Knows s key cell → (∀ t ∈ args, L.Fine t) →
    Beginning s key cell args definition definitions params →
    Inv (s.entered key cell definition definitions params)
  leave : ∀ {n s key cell args definition definitions params s' block}, L.Inv (n + 1) s →
    L.Knows s key cell → (∀ t ∈ args, L.Fine t) →
    Beginning s key cell args definition definitions params →
    (Translate.block ⟨setting, inferAt setting n⟩ definition.body
      ((Context.ofBody s.scopes.size key cell).last true)).run
      (s.entered key cell definition definitions params) = (.ok block, s') →
    L.Inv n s' → Inv s' →
    L.Rel .stmt (.ofBody s.scopes.size key cell)
      (s.entered key cell definition definitions params) s' → s.SameShape s' →
    L.KeepsBlock (.ofBody s.scopes.size key cell) s' block →
    let ret := returnAfter key (s'.cells.get cell)
    let s'' := ((s'.closed s.scopes.size).finished key cell (parameterNames key definition)
      block).answered key cell args ret .unresolved
    L.Inv (n + 1) s'' → L.Call s s'' → Inv s''

/-- A law with an addition. -/
def also (L : Law setting) (A : L.Addition) : Law setting :=
  { L with
    Inv := fun n s => L.Inv n s ∧ A.Inv s
    fine_exception := fun inv => L.fine_exception inv.1
    stop_depth := fun inv => L.stop_depth inv.1
    stop_entered := fun inv => L.stop_entered inv.1
    alive := fun faultless inv => L.alive faultless inv.1
    complete := fun faultless inv => L.complete faultless inv.1
    make := fun inv => L.make inv.1
    depend := fun σ dependencies ⟨inv, more⟩ => by
      obtain ⟨inv', rel⟩ := L.depend σ dependencies inv
      exact ⟨⟨inv', A.same more rfl rfl rfl rfl⟩, rel⟩
    retype := fun {_ σ s e _ ty} ⟨inv, more⟩ here node fine refines => by
      obtain ⟨inv', rel, node'⟩ := L.retype inv here node fine refines
      have shape := sameShape_refined s σ e ty
      have calls : s.calls ⊆ (s.refined σ e ty).calls := by
        rw [State.calls_refined]
        exact List.Subset.refl _
      exact ⟨⟨inv', A.moves more ⟨rel, shape⟩ (State.definitions_refined ..) calls⟩, rel, node'⟩
    openScope := fun ⟨inv, more⟩ here names fine => by
      obtain ⟨inv', here'⟩ := L.openScope inv here names fine
      exact ⟨⟨inv', A.same more rfl rfl rfl rfl⟩, here'⟩
    closeScope := fun ⟨inv, _⟩ here ⟨inside, more⟩ rel shape => by
      obtain ⟨inv', rel'⟩ := L.closeScope inv here inside rel shape
      exact ⟨⟨inv', A.same more rfl rfl rfl rfl⟩, rel'⟩
    declare := fun ⟨inv, more⟩ here binds changes fine free => by
      obtain ⟨inv', rel⟩ := L.declare inv here binds changes fine free
      exact ⟨⟨inv', A.same more rfl rfl rfl rfl⟩, rel⟩
    join := fun ⟨inv, more⟩ here binds changes fine owned joined => by
      obtain ⟨inv', rel⟩ := L.join inv here binds changes fine owned joined
      exact ⟨⟨inv', A.same more rfl rfl rfl rfl⟩, rel⟩
    joinAttribute := fun σ makePublic ⟨inv, more⟩ fine known joined => by
      obtain ⟨inv', rel, fine'⟩ := L.joinAttribute σ makePublic inv fine known joined
      have moves := A.moves more ⟨rel, ⟨.updateAttribute .., rfl⟩⟩ rfl (List.Subset.refl _)
      exact ⟨⟨inv', moves⟩, rel, fine'⟩
    register := fun σ ⟨inv, more⟩ fine missing => by
      obtain ⟨inv', rel⟩ := L.register σ inv fine missing
      exact ⟨⟨inv', A.moves more ⟨rel, ⟨.registerAttribute .., rfl⟩⟩ rfl (List.Subset.refl _)⟩, rel⟩
    leaves := fun inv => L.leaves inv.1
    merge := fun ⟨inv, more⟩ here definition returns other node merges => by
      obtain ⟨inv', rel, returned⟩ := L.merge inv here definition returns other node merges
      exact ⟨⟨inv', A.moves more ⟨rel, ⟨.refl _, rfl⟩⟩ rfl (List.Subset.refl _)⟩, rel, returned⟩
    answer := fun ⟨inv, more⟩ knows fine matched found answered => by
      obtain ⟨inv', call, called⟩ := L.answer inv knows fine matched found answered
      have rel := L.rel_call (m := .stmt) (σ := .ofModule) call
      have moves := A.moves more ⟨rel, ⟨.refl _, rfl⟩⟩ rfl (List.subset_cons_self ..)
      exact ⟨⟨inv', moves⟩, call, called⟩
    enter := fun ⟨inv, more⟩ knows fine beginning => by
      obtain ⟨inv', here⟩ := L.enter inv knows fine beginning
      exact ⟨⟨inv', A.enter inv more knows fine beginning⟩, here⟩
    enter_binds := fun inv => L.enter_binds inv.1
    enter_returns := fun inv => L.enter_returns inv.1
    enter_faultless := fun inv => L.enter_faultless inv.1
    leave := fun ⟨inv, _⟩ knows fine beginning run ⟨inside, more⟩ here rel shape keeps => by
      obtain ⟨inv', call, called⟩ :=
        L.leave inv knows fine beginning run inside here rel shape keeps
      exact ⟨⟨inv', A.leave inv knows fine beginning run inside more rel shape keeps inv' call⟩,
        call, called⟩ }

end Law

end TreeTyper.Translate
