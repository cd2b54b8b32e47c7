import TreeTyper.Proofs.Chains
import TreeTyper.Proofs.Law.Basic

/-!
# Laws about bodies and scopes

Some laws look only at the definitions with their phases and at how the open scopes
lie inside each other.  Neither nodes nor types matter to them, and they owe nothing
for an operation that changes neither; the rest of the law is filled in by
`FrameLaw.law`.

    s.SameFrame s' → F.Inv n s → F.Inv n s'        (FrameLaw.same)
-/

namespace TreeTyper

namespace Translate

/-! ## Bound names -/

/-- A scope binds a name. -/
def State.Binds (s : State) (id : ScopeId) (name : String) : Prop :=
  (s.scopes.lookupLocal id name).isSome

variable {s : State}

theorem State.Binds.lt_size {id : ScopeId} {x : String} (binds : s.Binds id x) :
    id < s.scopes.size := by
  obtain ⟨ty, found⟩ := Option.isSome_iff_exists.mp binds
  exact Scopes.lt_size_of_lookupLocal found

theorem State.binds_bound {id i : ScopeId} {x y : String} {ty : Ty}
    (binds : (s.bound id x ty).Binds i y) : s.Binds i y ∨ i = id ∧ y = x := by
  by_cases other : y = x
  · by_cases here : i = id
    · exact .inr ⟨here, other⟩
    · rw [State.Binds, State.bound, Scopes.lookupLocal, Scopes.scope?_define, if_neg here] at binds
      exact .inl binds
  · rw [State.Binds, State.bound, Scopes.lookupLocal_define_other other] at binds
    exact .inl binds

theorem State.Binds.bound {i : ScopeId} {y : String} (binds : s.Binds i y) (id : ScopeId)
    (x : String) (ty : Ty) : (s.bound id x ty).Binds i y := by
  by_cases other : y = x
  · by_cases here : i = id
    · rw [here, other]
      rw [here] at binds
      rw [State.Binds, State.bound, Scopes.lookupLocal_define_self binds.lt_size]
      rfl
    · rw [State.Binds, State.bound, Scopes.lookupLocal, Scopes.scope?_define, if_neg here]
      exact binds
  · rw [State.Binds, State.bound, Scopes.lookupLocal_define_other other]
    exact binds

theorem State.binds_closed {mark : Nat} (le : mark ≤ s.scopes.size) {id : ScopeId} {x : String} :
    (s.closed mark).Binds id x ↔ id < mark ∧ s.Binds id x := by
  by_cases below : id < mark
  · rw [State.Binds, State.closed, Scopes.lookupLocal_discard le below]
    exact (and_iff_right below).symm
  · refine iff_of_false (fun binds => below ?_) fun known => below known.1
    have open_ := binds.lt_size
    rwa [State.closed, Scopes.size_discard le] at open_

theorem State.binds_opened {id : ScopeId} (below : id < s.scopes.size) {parent : ScopeId}
    {bindings : List (String × Ty)} {x : String} :
    (s.opened parent bindings).Binds id x ↔ s.Binds id x := by
  rw [State.Binds, State.opened, Scopes.lookupLocal_child_of_ne (Nat.ne_of_lt below)]
  rfl

/-- The scope that owns a name as a local binds it. -/
theorem State.binds_of_localOwner? {σ : Site} {id : String} {owner : ScopeId}
    (owned : s.localOwner? σ id = some owner) : s.Binds owner id := by
  have resolved : ∀ {owner}, s.scopes.resolveLocal σ.scope id = some owner → s.Binds owner id := by
    intro owner found
    unfold Scopes.resolveLocal at found
    split at found
    · next ty known =>
      split at found
      · cases found
      · cases found
        rw [State.Binds, (Scopes.lookupLocal_of_resolve known).1]
        rfl
    · cases found
  unfold State.localOwner? at owned
  dsimp only at owned
  split at owned
  · exact resolved owned
  · rcases Option.or_eq_some_iff.mp owned with owned | ⟨-, global⟩
    · exact resolved owned
    · obtain ⟨ty, found, rfl⟩ := Option.map_eq_some_iff.mp global
      rw [State.Binds, found]
      rfl

/-! ## Frames -/

/-- Tables with the same definitions in the same phases, with the same classes but for attributes,
and with the same open scopes, which may bind more names. -/
structure State.SameFrame (s s' : State) : Prop where
  hierarchy : s.hierarchy.SameShape s'.hierarchy
  definitions : s'.definitions = s.definitions
  progress : s'.progress = s.progress
  links : s'.scopes.links = s.scopes.links
  kept : ∀ {id x}, s.Binds id x → s'.Binds id x

/-- A new binding. -/
theorem State.sameFrame_bound (s : State) (id : ScopeId) (x : String) (ty : Ty) :
    s.SameFrame (s.bound id x ty) :=
  ⟨.refl _, rfl, rfl, Scopes.links_define .., fun binds => binds.bound id x ty⟩

theorem State.SameFrame.of_scopes {s s' : State} (hierarchy : s.hierarchy.SameShape s'.hierarchy)
    (scopes : s'.scopes = s.scopes) (definitions : s'.definitions = s.definitions)
    (progress : s'.progress = s.progress) : s.SameFrame s' :=
  ⟨hierarchy, definitions, progress, by rw [scopes], fun binds => by rwa [State.Binds, scopes]⟩

theorem State.sameFrame_refined (s : State) (σ : Site) (node : Typed.Expr) (ty : Ty) :
    s.SameFrame (s.refined σ node ty) := by
  have viaAttribute : ∀ className name, s.SameFrame (s.withAttribute className name ty) := by
    intro className name
    unfold withAttribute
    split
    · exact .of_scopes (.updateAttribute ..) rfl rfl rfl
    · exact .of_scopes (.refl _) rfl rfl rfl
  unfold refined
  split
  · next name _ =>
    unfold Scopes.assign
    split
    · exact s.sameFrame_bound ..
    · exact s.sameFrame_bound ..
  · split
    · exact viaAttribute ..
    · exact .of_scopes (.refl _) rfl rfl rfl
  · exact viaAttribute ..
  · exact .of_scopes (.refl _) rfl rfl rfl

theorem State.sameFrame_answered (s : State) (key : DefKey) (cell : CellId) (args : List Ty) (ret : Ty)
    (phase : Phase) : s.SameFrame (s.answered key cell args ret phase) :=
  .of_scopes (.refl _) rfl rfl rfl

/-- An invariant of the definitions and of the open scopes. -/
structure FrameLaw (setting : Setting) where
  /-- Holds of the tables when at most so many bodies can begin inside each other. -/
  Inv : Nat → State → Prop := fun _ _ => True
  /-- Holds of the tables at a site. -/
  Here : Site → State → Prop := fun _ _ => True
  /-- What a run changes. -/
  Rel : State → State → Prop := fun _ _ => True
  /-- Whether the code that is translated has to be without faults. -/
  Faultless : Prop := False
  /-- How a run stops. -/
  Stopped : State → Stop → State → Prop := fun _ _ _ => True
  rel_refl : ∀ s, Rel s s := by intros; trivial
  rel_trans : ∀ {s s' s''}, Rel s s' → Rel s' s'' → Rel s s'' := by intros; trivial
  here_rel : ∀ {σ s s'}, Here σ s → Rel s s' → Here σ s' := by intros; trivial
  stop_here : ∀ {s stop}, stop ≠ .fault .depth → (Faultless → stop.IsFailure) →
    (setting.api.Closed → ¬stop.AsksSignature) → Stopped s stop s := by intros; trivial
  stop_depth : ∀ {s}, Inv 0 s → Stopped s (.fault .depth) s := by intros; trivial
  stop_locate : ∀ {s stop s'} pos, Stopped s stop s' → Stopped s (stop.locate pos) s' := by
    intros; trivial
  stop_rel : ∀ {s s' stop s''}, Rel s s' → Stopped s' stop s'' → Stopped s stop s'' := by
    intros; trivial
  stop_closed : ∀ {s parent bindings stop s'}, Stopped (s.opened parent bindings) stop s' →
    Stopped s stop (s'.closed s.scopes.size) := by intros; trivial
  stop_entered : ∀ {n s key cell args definition definitions params stop s'}, Inv (n + 1) s →
    Beginning s key cell args definition definitions params →
    Stopped (s.entered key cell definition definitions params) stop s' →
    Stopped s stop (s'.closed s.scopes.size) := by intros; trivial
  alive : ∀ {n σ s}, Faultless → Inv n s → Here σ s →
    s.scopes.isAlive σ.scope ∧ s.scopes.isAlive σ.body := by intros; exact Law.alive_of_false ‹_›
  complete : ∀ {n s}, Faultless → Inv n s → s.hierarchy.Complete := by
    intros; exact Law.complete_of_false ‹_›
  /-- A change of anything else keeps the law. -/
  same : ∀ {n s s'}, Inv n s → s.SameFrame s' → Inv n s' ∧ Rel s s' := by
    intros; exact ⟨trivial, trivial⟩
  openScope : ∀ {n σ s} bindings, Inv n s → Here σ s → Inv n (s.opened σ.scope bindings) ∧
    Here (σ.inScope s.scopes.size) (s.opened σ.scope bindings) := by
    intros; exact ⟨trivial, trivial⟩
  closeScope : ∀ {n s parent bindings s'}, Inv n s → Inv n s' →
    Rel (s.opened parent bindings) s' →
    Inv n (s'.closed s.scopes.size) ∧ Rel s (s'.closed s.scopes.size) := by
    intros; exact ⟨trivial, trivial⟩
  enter : ∀ {n s key cell args definition definitions params}, Inv (n + 1) s →
    Beginning s key cell args definition definitions params →
    let s' := s.entered key cell definition definitions params
    Inv n s' ∧ Here (.ofBody s.scopes.size key cell) s' := by exact fun _ _ => ⟨trivial, trivial⟩
  enter_faultless : ∀ {n s key cell args definition definitions params}, Inv (n + 1) s →
    Beginning s key cell args definition definitions params →
    Faultless → Tree.blockFaultless definition.body := by
    intros; exact Law.blockFaultless_of_false ‹_›
  leave : ∀ {n s key cell args definition definitions params s' block}, Inv (n + 1) s →
    Beginning s key cell args definition definitions params →
    (Translate.block ⟨setting, inferAt setting n⟩ definition.body
      ((Context.ofBody s.scopes.size key cell).last true)).run
      (s.entered key cell definition definitions params) = (.ok block, s') →
    Inv n s' → Rel (s.entered key cell definition definitions params) s' →
    let s'' := (s'.closed s.scopes.size).finished key cell (parameterNames key definition) block
    Inv (n + 1) s'' ∧ Rel s s'' := by
    exact fun _ _ _ _ _ => ⟨trivial, trivial⟩

namespace FrameLaw

variable {setting : Setting} (F : FrameLaw setting)

theorem moves {n : Nat} {s s' : State} {kept : Prop} (inv : F.Inv n s) (frame : s.SameFrame s')
    (h : kept) : F.Inv n s' ∧ F.Rel s s' ∧ kept :=
  ⟨(F.same inv frame).1, (F.same inv frame).2, h⟩

/-- The law, of which all holds that is not about definitions and scopes. -/
def law : Law setting where
  Inv := F.Inv
  Here := F.Here
  Rel _ _ := F.Rel
  Call := F.Rel
  Faultless := F.Faultless
  Stopped := F.Stopped
  rel_refl _ _ := F.rel_refl
  rel_trans := F.rel_trans
  here_rel here rel _ := F.here_rel here rel
  stop_here := F.stop_here
  stop_depth := F.stop_depth
  stop_locate := F.stop_locate
  stop_rel := F.stop_rel
  stop_closed := F.stop_closed
  stop_entered := F.stop_entered
  alive := F.alive
  complete := F.complete
  depend _ _ inv := F.same inv (.of_scopes (.refl _) rfl rfl rfl)
  retype {_ σ s e _ ty} inv _ _ _ _ := F.moves inv (s.sameFrame_refined σ e ty) trivial
  openScope inv here _ _ := F.openScope _ inv here
  closeScope inv _ inside rel _ := F.closeScope inv inside rel
  declare inv _ _ _ _ _ := F.same inv (State.sameFrame_bound ..)
  join inv _ _ _ _ _ _ := F.same inv (State.sameFrame_bound ..)
  joinAttribute _ _ inv _ _ _ :=
    F.moves inv (.of_scopes (.updateAttribute ..) rfl rfl rfl) trivial
  register _ inv _ _ := F.same inv (.of_scopes (.registerAttribute ..) rfl rfl rfl)
  merge inv _ _ _ _ _ _ := F.moves inv (.of_scopes (.refl _) rfl rfl rfl) trivial
  answer inv _ _ _ _ _ := F.moves inv (.of_scopes (.refl _) rfl rfl rfl) trivial
  enter inv _ _ beginning := F.enter inv beginning
  enter_faultless := F.enter_faultless
  leave inv _ _ beginning run inside _ rel _ _ := by
    obtain ⟨inv', rel'⟩ := F.leave inv beginning run inside rel
    obtain ⟨inv'', rel''⟩ := F.same inv' (State.sameFrame_answered ..)
    exact ⟨inv'', F.rel_trans rel' rel'', trivial⟩

end FrameLaw

end Translate

end TreeTyper
