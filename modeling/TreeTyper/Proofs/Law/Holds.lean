import TreeTyper.Proofs.Law.Basic

/-!
# What a run owes to a law

`L.Holds n m σ s act post`: started in `s` at the site `σ`, where the law holds,
`act` ends where it holds again, having changed the tables no more than allowed,
with a result of which `post` holds; or it stops as the law says.  There is one
rule for each primitive; `Holds.bind` sequences.
-/

namespace TreeTyper.Translate

open Typed

namespace Law

variable {setting : Setting} (L : Law setting) {α β : Type}

/-- The law holds of the tables, at a site. -/
structure At (n : Nat) (σ : Site) (s : State) : Prop where
  inv : L.Inv n s
  here : L.Here σ s

/-- What the law asks of code: the names that it binds, whether it returns, and whether it is
faultless. -/
structure Admits (key? : Option DefKey) (names : List String) (returns faultless : Bool) : Prop where
  binds : ∀ x ∈ names, L.Binds key? x := by intros; trivial
  returns : returns → L.Returns key? := by intros; trivial
  faultless : L.Faultless → faultless := by intros; trivial

/-- A change of the tables that the law and the translator allow. -/
structure Moves (m : Mode) (σ : Site) (s s' : State) : Prop where
  rel : L.Rel m σ s s'
  shape : s.SameShape s'

def Holds (n : Nat) (m : Mode) (σ : Site) (s : State) (act : Run α) (post : α → State → Prop) :
    Prop :=
  Runs act s (fun a s' => L.At n σ s' ∧ L.Moves m σ s s' ∧ post a s') (L.Stopped s)

variable {L} {n : Nat} {m : Mode} {σ : Site} {s s' s'' : State} {act : Run α}
  {post : α → State → Prop}

namespace Moves

theorem refl (s : State) : L.Moves m σ s s := ⟨L.rel_refl m σ s, .refl s⟩

theorem trans (a : L.Moves m σ s s') (b : L.Moves m σ s' s'') : L.Moves m σ s s'' :=
  ⟨L.rel_trans a.rel b.rel, a.shape.trans b.shape⟩

theorem stmt (a : L.Moves .expr σ s s') : L.Moves .stmt σ s s' := ⟨L.rel_stmt a.rel, a.shape⟩

end Moves

/-- What the law asks of a block. -/
abbrev AdmitsBlock (key? : Option DefKey) (body : List Tree.Stmt) : Prop :=
  L.Admits key? (Tree.blockNames body) (Tree.blockReturns body) (Tree.blockFaultless body)

theorem Admits.and {key? : Option DefKey} {names names' : List String}
    {returns returns' faultless faultless' : Bool} :
    L.Admits key? (names ++ names') (returns || returns') (faultless && faultless') ↔
      L.Admits key? names returns faultless ∧ L.Admits key? names' returns' faultless' := by
  constructor
  · intro admits
    have binds := List.forall_mem_append.mp admits.binds
    have sound := Tree.sound_and admits.faultless
    exact ⟨⟨binds.1, fun h => admits.returns (by simp [h]), sound.1⟩,
      ⟨binds.2, fun h => admits.returns (by simp [h]), sound.2⟩⟩
  · rintro ⟨first, second⟩
    refine ⟨List.forall_mem_append.mpr ⟨first.binds, second.binds⟩, fun h => ?_, fun h => ?_⟩
    · exact (Bool.or_eq_true_iff.mp h).elim first.returns second.returns
    · exact Bool.and_eq_true_iff.mpr ⟨first.faultless h, second.faultless h⟩

/-- A failure is no fault; it is for want of a signature only in tables that are not closed. -/
theorem stop_failure {cause : Cause} {location : Option Pos}
    (other : setting.api.Closed → ¬cause.AsksSignature) :
    L.Stopped s (.failure cause location) s :=
  L.stop_here Stop.noConfusion (fun _ _ => Stop.noConfusion) other

/-- The scopes of a site are alive where faults are ruled out. -/
theorem At.dead (at_s : L.At n σ s) {id : ScopeId} (own : id = σ.scope ∨ id = σ.body)
    (dead : ¬s.scopes.isAlive id) : L.Stopped s (.fault (.deadScope id)) s := by
  refine L.stop_here (by simp) (fun faultless => absurd ?_ dead) fun _ asks => asks
  obtain ⟨scope, body⟩ := L.alive faultless at_s.inv at_s.here
  rcases own with rfl | rfl
  · exact scope
  · exact body

/-- Walks along the bases end where faults are ruled out. -/
theorem stop_endless (inv : L.Inv n s) (endless : ¬s.hierarchy.Complete) :
    L.Stopped s (.fault .endlessWalk) s :=
  L.stop_here (by simp) (fun faultless => absurd (L.complete faultless inv) endless)
    fun _ asks => asks

theorem At.move (at_s : L.At n σ s) (inv : L.Inv n s') (move : L.Moves m σ s s') :
    L.At n σ s' :=
  ⟨inv, L.here_rel at_s.here move.rel move.shape⟩

namespace Holds

theorem bind {f : α → Run β} {after : β → State → Prop} (h : L.Holds n m σ s act post)
    (next : ∀ a s', L.At n σ s' → L.Moves m σ s s' → post a s' → L.Holds n m σ s' (f a) after) :
    L.Holds n m σ s (act >>= f) after := by
  refine Runs.bind h fun a s' ⟨at_s', move, ha⟩ => ?_
  refine (next a s' at_s' move ha).imp ?_ ?_
  · rintro b s'' ⟨at_s'', move', hb⟩
    exact ⟨at_s'', move.trans move', hb⟩
  · intro stop s'' stopped
    exact L.stop_rel move.rel stopped

theorem imp {post' : α → State → Prop} (h : L.Holds n m σ s act post)
    (ok : ∀ a s', L.At n σ s' → L.Moves m σ s s' → post a s' → post' a s') :
    L.Holds n m σ s act post' :=
  Runs.imp h (fun a s' ⟨at_s', move, ha⟩ => ⟨at_s', move, ok a s' at_s' move ha⟩)
    fun _ _ stopped => stopped

/-- What is known of every end of a run is known of an end where the law holds. -/
theorem and {known : α → Prop} (h : L.Holds n m σ s act post)
    (ends : Runs act s (fun a _ => known a) fun _ _ => True) :
    L.Holds n m σ s act fun a s' => post a s' ∧ known a :=
  (Runs.and h ends).imp (fun _ _ ⟨⟨at_s', move, ha⟩, hk⟩ => ⟨at_s', move, ha, hk⟩)
    fun _ _ stopped => stopped.1

theorem stmt (h : L.Holds n .expr σ s act post) : L.Holds n .stmt σ s act post :=
  Runs.imp h (fun _ _ ⟨at_s', move, ha⟩ => ⟨at_s', move.stmt, ha⟩) fun _ _ stopped => stopped

/-- A statement that begins with an expression; nodes survive the expression. -/
theorem expr_bind {f : α → Run β} {after : β → State → Prop}
    (h : L.Holds n .expr σ s act post)
    (next : ∀ a s', L.At n σ s' → L.Moves .expr σ s s' → post a s' →
      L.Holds n .stmt σ s' (f a) after) :
    L.Holds n .stmt σ s (act >>= f) after := by
  have known : L.Holds n .expr σ s act fun a s' => post a s' ∧ L.Moves .expr σ s s' :=
    h.imp fun _ _ _ move ha => ⟨ha, move⟩
  exact known.stmt.bind fun a s' at_s' _ ⟨ha, move⟩ => next a s' at_s' move ha

theorem map {f : α → β} {after : β → State → Prop}
    (h : L.Holds n m σ s act fun a s' => after (f a) s') : L.Holds n m σ s (f <$> act) after :=
  Runs.map h

/-! ## Primitives -/

theorem pure {a : α} (at_s : L.At n σ s) (ha : post a s) :
    L.Holds n m σ s (Pure.pure a) post :=
  Runs.pure ⟨at_s, .refl s, ha⟩

theorem get {f : State → Run β} {after : β → State → Prop} (h : L.Holds n m σ s (f s) after) :
    L.Holds n m σ s (MonadState.get >>= f) after := h

/-- A change of the tables that the law allows. -/
theorem modify {g : State → State} {post : PUnit → State → Prop} (at_s : L.At n σ s)
    (inv : L.Inv n (g s)) (move : L.Moves m σ s (g s)) (ha : post ⟨⟩ (g s)) :
    L.Holds n m σ s (modify g) post :=
  Runs.modify ⟨at_s.move inv move, move, ha⟩

theorem fail {cause : Cause} (other : ¬cause.AsksSignature) :
    L.Holds n m σ s (fail cause) post :=
  Runs.fail (L.stop_failure fun _ => other)

theorem failAt {pos : Pos} {cause : Cause} (other : ¬cause.AsksSignature) :
    L.Holds n m σ s (failAt pos cause) post :=
  Runs.failAt (L.stop_failure fun _ => other)

/-- A fault other than the depth, where faults are not ruled out. -/
theorem abort {fault : Fault} (h : fault ≠ .depth) (faulty : ¬L.Faultless) :
    L.Holds n m σ s (abort fault) post :=
  Runs.abort (L.stop_here (fun same => h (Stop.fault.inj same))
    (fun faultless => absurd faultless faulty) fun _ => id)

theorem check {result : Except Cause α} (at_s : L.At n σ s)
    (answers : setting.api.Closed → Answers result) (ok : ∀ a, result = .ok a → post a s) :
    L.Holds n m σ s (check result) post :=
  Runs.check (fun a ha => ⟨at_s, .refl s, ok a ha⟩) fun cause failed =>
    L.stop_failure fun closed => answers closed cause failed

theorem located {pos : Pos} (h : L.Holds n m σ s act post) :
    L.Holds n m σ s (located pos act) post :=
  Runs.located (Runs.imp h (fun _ _ ha => ha) fun _ _ stopped => L.stop_locate pos stopped)

theorem lookup {name : String} {post : Option Ty → State → Prop}
    (at_s : L.At n σ s) (ok : post (s.scopes.lookup σ.scope name) s) :
    L.Holds n m σ s (lookup σ.scope name) post :=
  Runs.lookup (fun _ => ⟨at_s, .refl s, ok⟩) (at_s.dead (.inl rfl))

/-! ## Primitives before another run -/

theorem fail_bind {cause : Cause} {f : α → Run β} {after : β → State → Prop}
    (other : ¬cause.AsksSignature) : L.Holds n m σ s (Translate.fail cause >>= f) after := by
  have stops : L.Holds n m σ s (Translate.fail cause : Run α) fun _ _ => False := fail other
  exact stops.bind fun _ _ _ _ impossible => impossible.elim

theorem failAt_bind {pos : Pos} {cause : Cause} {f : α → Run β} {after : β → State → Prop}
    (other : ¬cause.AsksSignature) : L.Holds n m σ s (Translate.failAt pos cause >>= f) after := by
  have stops : L.Holds n m σ s (Translate.failAt pos cause : Run α) fun _ _ => False := failAt other
  exact stops.bind fun _ _ _ _ impossible => impossible.elim

theorem check_bind {result : Except Cause α} {f : α → Run β} {after : β → State → Prop}
    (at_s : L.At n σ s) (answers : setting.api.Closed → Answers result)
    (next : ∀ a, result = .ok a → L.Holds n m σ s (f a) after) :
    L.Holds n m σ s (Translate.check result >>= f) after := by
  have read : L.Holds n m σ s (Translate.check result) fun a s' => result = .ok a ∧ s' = s :=
    check at_s answers fun a ha => ⟨ha, rfl⟩
  refine read.bind ?_
  rintro a _ _ _ ⟨ha, rfl⟩
  exact next a ha

theorem walk_bind {ends : Bool} {f : Unit → Run β} {after : β → State → Prop}
    (at_s : L.At n σ s) (answers : s.hierarchy.Complete → ends)
    (next : L.Holds n m σ s (f ()) after) : L.Holds n m σ s (walk ends >>= f) after :=
  Runs.walk_bind (fun _ => next) fun endless =>
    L.stop_endless at_s.inv fun complete => endless (answers complete)

theorem lookup_bind {name : String} {f : Option Ty → Run β}
    {after : β → State → Prop} (at_s : L.At n σ s)
    (next : L.Holds n m σ s (f (s.scopes.lookup σ.scope name)) after) :
    L.Holds n m σ s (Translate.lookup σ.scope name >>= f) after := by
  have read : L.Holds n m σ s (Translate.lookup σ.scope name)
      fun found s' => found = s.scopes.lookup σ.scope name ∧ s' = s := lookup at_s ⟨rfl, rfl⟩
  refine read.bind ?_
  rintro _ _ _ _ ⟨rfl, rfl⟩
  exact next

theorem localOwner {ctx : Context} {name : String} (at_s : L.At n ctx.site s) :
    L.Holds n m ctx.site s (Translate.localOwner ctx name)
      fun owner s' => owner = s.localOwner? ctx.site name ∧ s' = s := by
  refine Runs.requireAlive_bind (fun _ => ?_) (at_s.dead (.inl rfl))
  refine Runs.get ?_
  by_cases inBody : ctx.body ≠ Scopes.moduleScope
  · rw [if_pos inBody]
    exact pure at_s ⟨(if_pos inBody).symm, rfl⟩
  · rw [if_neg inBody]
    exact pure at_s ⟨(if_neg inBody).symm, rfl⟩

theorem localOwner_bind {ctx : Context} {name : String} {f : Option ScopeId → Run β}
    {after : β → State → Prop} (at_s : L.At n ctx.site s)
    (next : L.Holds n m ctx.site s (f (s.localOwner? ctx.site name)) after) :
    L.Holds n m ctx.site s (Translate.localOwner ctx name >>= f) after := by
  refine (localOwner at_s).bind ?_
  rintro _ _ _ _ ⟨rfl, rfl⟩
  exact next

/-! ## Scopes -/

theorem inScope {bindings : List (String × Ty)} {act : ScopeId → Run α} {inner : α → State → Prop}
    (at_s : L.At n σ s)
    (names : ∀ b ∈ bindings, L.Binds σ.key? b.1 ∨ s.scopes.lookup σ.scope b.1 = none)
    (fine : ∀ b ∈ bindings, L.Fine b.2)
    (run : L.At n (σ.inScope s.scopes.size) (s.opened σ.scope bindings) →
      L.Holds n m (σ.inScope s.scopes.size) (s.opened σ.scope bindings) (act s.scopes.size) inner)
    (out : ∀ a s', L.Moves m (σ.inScope s.scopes.size) (s.opened σ.scope bindings) s' →
      inner a s' → post a (s'.closed s.scopes.size)) :
    L.Holds n m σ s (inScope σ.scope bindings act) post := by
  obtain ⟨inv, here⟩ := L.openScope at_s.inv at_s.here names fine
  refine Runs.inScope (Runs.imp (run ⟨inv, here⟩) ?_ fun stop s' stopped => L.stop_closed stopped)
  rintro a s' ⟨at_s', move, ha⟩
  have shape : s.SameShape s' := ⟨move.shape.hierarchy, move.shape.functions⟩
  obtain ⟨closed, rel⟩ := L.closeScope at_s.inv at_s.here at_s'.inv move.rel shape
  have move' : L.Moves m σ s (s'.closed s.scopes.size) :=
    ⟨rel, ⟨shape.hierarchy, shape.functions⟩⟩
  exact ⟨at_s.move closed move', move', out a s' move ha⟩

end Holds

/-! ## Nodes -/

theorem Moves.node {e : Expr} (move : L.Moves .expr σ s s') (node : L.Node σ s e) :
    L.Node σ s' e :=
  L.node_rel node move.rel move.shape

theorem Moves.nodes {es : List Expr} (move : L.Moves .expr σ s s')
    (nodes : ∀ e ∈ es, L.Node σ s e) : ∀ e ∈ es, L.Node σ s' e :=
  fun e he => move.node (nodes e he)

theorem Moves.kept {names : List String} {e : Expr} (move : L.Moves m σ s s')
    (kept : L.Kept σ names s e) : L.Kept σ names s' e :=
  L.kept_rel kept move.rel move.shape

theorem Moves.returned {d : Option (DefKey × CellId)} {e : Expr} (move : L.Moves m σ s s')
    (returned : L.Returned d s e) : L.Returned d s' e :=
  L.returned_rel returned move.rel move.shape

theorem Moves.links {key : DefKey} {cell : CellId} (move : L.Moves m σ s s')
    (links : s.Links key cell) : s'.Links key cell :=
  move.shape.links_iff.mpr links

theorem At.make {parts : List Expr} {e : Expr} (at_s : L.At n σ s)
    (nodes : ∀ p ∈ parts, L.Node σ s p)
    (made : Makes setting.api σ s (L.Free σ s) (L.Below σ s) (L.Called s) parts e) : L.Node σ s e :=
  L.make at_s.inv at_s.here (fun p hp => L.kept_node (nodes p hp))
    (fun p hp => L.fine_node (nodes p hp)) (fun _ => nodes) made

theorem Moves.free {id : String} (move : L.Moves .expr σ s s') (free : L.Free σ s id) :
    L.Free σ s' id :=
  L.free_rel free move.rel

theorem At.test {value e : Expr} (at_s : L.At n σ s) (known : L.Node σ s value)
    (made : testable value = .ok e) : L.Node σ s e := by
  by_cases same : e = value
  · exact same ▸ known
  · exact at_s.make (by simpa using known) (.test made same)

theorem At.regexp {pattern e : Expr} (at_s : L.At n σ s) (known : L.Node σ s pattern)
    (made : toRegexp pattern = .ok e) : L.Node σ s e := by
  by_cases same : e = pattern
  · exact same ▸ known
  · exact at_s.make (by simpa using known) (.regexp made same)

theorem fine_types {es : List Expr} (nodes : ∀ e ∈ es, L.Node σ s e) :
    ∀ t ∈ types es, L.Fine t := by
  intro t ht
  obtain ⟨e, he, rfl⟩ := List.mem_map.mp ht
  exact L.fine_node (nodes e he)

/-! ## Parts -/

variable (L)

/-- A run that infers definitions keeps the law. -/
def Infers (n : Nat) (infer : Infer) : Prop :=
  ∀ s key cell args pos, L.Inv n s → L.Knows s key cell → (∀ t ∈ args, L.Fine t) →
    Runs (infer key cell args pos) s
      (fun ret s' => L.Inv n s' ∧ L.Call s s' ∧ s.SameShape s' ∧ L.Called s' key cell args ret ∧
        s'.JustAnswered key cell args ret)
      (L.Stopped s)

/-- An expression that is still to be translated keeps the law wherever it stands. -/
def Evaluates (n : Nat) (d : Deferred) : Prop :=
  ∀ ctx s, L.At n ctx.site s →
    L.Holds n .expr ctx.site s (d.run ctx) fun e s' => L.Node ctx.site s' e

variable {L}

theorem Infers.holds {infer : Infer} (infers : L.Infers n infer) {key : DefKey} {cell : CellId}
    {args : List Ty} {pos : Pos} (at_s : L.At n σ s) (links : s.Links key cell)
    (fine : ∀ t ∈ args, L.Fine t) :
    L.Holds n m σ s (infer key cell args pos) fun ret s' =>
      L.Called s' key cell args ret ∧ s'.JustAnswered key cell args ret := by
  have runs := infers s key cell args pos at_s.inv (L.knows_links links) fine
  refine Runs.imp runs ?_ fun _ _ stopped => stopped
  rintro ret s' ⟨inv, call, shape, called⟩
  have move : L.Moves m σ s s' := ⟨L.rel_call call, shape⟩
  exact ⟨at_s.move inv move, move, called⟩

theorem runAll_holds {ctx : Context} {ds : List Deferred} (evaluates : ∀ d ∈ ds, L.Evaluates n d)
    (at_s : L.At n ctx.site s) :
    L.Holds n .expr ctx.site s (runAll ctx ds) fun es s' => ∀ e ∈ es, L.Node ctx.site s' e := by
  induction ds generalizing s with
  | nil => exact Holds.pure at_s (by simp)
  | cons d ds ih =>
    refine (evaluates d (by simp) ctx s at_s).bind fun e s₁ at₁ _ node => ?_
    refine (ih (fun d' hd' => evaluates d' (by simp [hd'])) at₁).bind fun es s₂ at₂ move nodes => ?_
    refine Holds.pure at₂ ?_
    simp only [List.mem_cons, forall_eq_or_imp]
    exact ⟨move.node node, nodes⟩

end Law

end TreeTyper.Translate
