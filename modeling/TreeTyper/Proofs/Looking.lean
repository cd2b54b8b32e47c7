import TreeTyper.Proofs.Law.Infer
import TreeTyper.Proofs.Parts
import TreeTyper.Proofs.Sight

/-!
# Looking names up

An expression refers to what is in sight at its site and binds nothing there; that
is a law.  A statement makes what it assigns visible to the statements after it, so
for blocks the sight grows along the recursion.

    Covers v ctx.site s → (block t body ctx).run s = (.ok nodes, s') →
      blockWithin v nodes                                     (block_sees)
-/

namespace TreeTyper

namespace Translate

open Typed

variable {v : Sight} {σ : Site} {s s' : State}

/-! ## Nodes -/

theorem within_of_leaf {kind : ExprKind} {type : Ty} (leaf : kind.children = [])
    (plain : Expr.isIterate ⟨kind, type⟩ = false) (refers : Expr.Refers v ⟨kind, type⟩) :
    Expr.Within v ⟨kind, type⟩ := by
  refine .of_children plain refers fun c hc => ?_
  rw [Expr.children, leaf] at hc
  cases hc

theorem within_formatArgument {op : String} {e : Expr} (within : e.Within v) :
    (formatArgument op e).Within v := by
  unfold formatArgument
  split
  · refine .of_children rfl trivial fun c hc => ?_
    rw [List.mem_singleton.mp hc]
    exact within
  · exact within

theorem within_greater {left right : Expr} (within : left.Within v) (within' : right.Within v) :
    (greater left right).Within v := by
  refine .of_children rfl trivial ?_
  simpa [greater, Expr.children, ExprKind.children] using ⟨within, within'⟩

theorem within_lengthOf {e : Expr} (within : e.Within v) : (lengthOf e).Within v := by
  refine .of_children rfl trivial ?_
  simpa [lengthOf, Expr.children, ExprKind.children] using within

/-- A new node refers to nothing that its parts or its site do not see. -/
theorem Makes.within {api : ApiTables} {free : String → Prop} {below : List String → Expr → Prop}
    {called : DefKey → CellId → List Ty → Ty → Prop} {parts : List Expr} {e : Expr}
    (made : Makes api σ s free below called parts e) (covers : Covers v σ s)
    (parts_within : e.isIterate = false → ∀ p ∈ parts, p.Within v)
    (below_within : ∀ {names e}, below names e → e.Within (v.extend names)) : e.Within v := by
  -- most forms refer to nothing themselves and have just their parts below them
  have direct : ∀ {kind : ExprKind} {type : Ty}, e = ⟨kind, type⟩ → e.isIterate = false →
      e.Refers v → (∀ c ∈ kind.children, c ∈ parts) → e.Within v := by
    rintro kind type rfl plain refers within
    exact .of_children plain refers fun c hc => parts_within plain c (within c hc)
  cases made with
  | literal isLiteral => cases isLiteral <;> exact within_of_leaf rfl rfl trivial
  | this inMethod _ => exact within_of_leaf rfl rfl (covers.method inMethod)
  | «variable» notSelf found =>
    exact within_of_leaf rfl rfl (covers.names _ (by rw [found]; rfl) notSelf)
  | function _ declared =>
    exact within_of_leaf rfl rfl (covers.functions _ (by rw [State.IsFunction, declared]; rfl))
  | typename => exact within_of_leaf rfl rfl trivial
  | instanceVar isThis _ =>
    have within := parts_within rfl _ List.mem_cons_self
    have refers := within.refers
    rw [Expr.Refers, isThis] at refers
    exact within_of_leaf rfl rfl refers
  | binary made =>
    obtain ⟨result, -, ⟨-, rfl⟩ | ⟨receiver, arg, message, hr, ha, rfl⟩⟩ := binary_cases made
    · exact direct rfl rfl trivial (by simp [ExprKind.children])
    · refine .of_children rfl trivial fun c hc => ?_
      rcases List.mem_cons.mp hc with rfl | hc
      · exact parts_within rfl _ hr
      · rw [List.mem_singleton.mp hc]
        exact within_formatArgument (parts_within rfl _ ha)
  | @test value _ made differs =>
    rcases testable_cases made with rfl | ⟨-, rfl⟩ | ⟨-, rfl⟩ | rfl
    · exact absurd rfl differs
    · have within := parts_within rfl value List.mem_cons_self
      exact within_greater (within_lengthOf within) (within_of_leaf rfl rfl trivial)
    · have within := parts_within rfl value List.mem_cons_self
      exact within_greater within (within_of_leaf rfl rfl trivial)
    · exact direct rfl rfl trivial (by simp [ExprKind.children])
  | regexp made differs =>
    rcases toRegexp_cases made with rfl | ⟨value, rfl⟩ | rfl
    · exact absurd rfl differs
    · exact within_of_leaf rfl rfl trivial
    · exact direct rfl rfl trivial (by simp [ExprKind.children])
  | functionCall _ declared _ =>
    refine .of_children rfl trivial fun c hc => ?_
    rcases List.mem_cons.mp hc with rfl | hc
    · exact within_of_leaf rfl rfl
        (covers.functions _ (by rw [State.IsFunction, declared]; rfl))
    · exact parts_within rfl c hc
  | standardMethodCall =>
    refine .of_children rfl trivial fun c hc => ?_
    rcases List.mem_cons.mp hc with rfl | hc
    · exact parts_within rfl _ (by simp)
    · exact parts_within rfl _ (by simp [hc])
  | thisMethodCall inMethod _ _ =>
    exact direct rfl rfl (covers.method (by rw [inMethod]; rfl)) (by simp [ExprKind.children])
  | iterate _ _ roots inner =>
    refine .node trivial fun part hpart => ?_
    rcases List.mem_append.mp hpart with hpart | hpart
    · obtain ⟨root, hroot, rfl⟩ := List.mem_map.mp hpart
      exact below_within (roots root hroot)
    · obtain ⟨p, hp, rfl⟩ := List.mem_map.mp hpart
      exact below_within (inner p hp)
  | _ => exact direct rfl rfl trivial (by simp [ExprKind.children])

/-! ## Runs -/

/-- A run refers to what was in sight where it began, and binds names in the scope of its body
alone; an expression binds none. -/
def sightLaw (setting : Setting) : Law setting where
  Rel m σ s s' := ∃ names, (m = .expr → names = []) ∧ Grows σ.body names s s'
  Call s s' := ∀ body, Grows body [] s s'
  Node σ s e := ∀ v, Covers v σ s → e.Within v
  Below σ s names e := ∀ v, Covers v σ s → e.Within (v.extend names)
  rel_refl _ _ s := ⟨[], fun _ => rfl, .refl _ s⟩
  rel_trans := by
    rintro m σ s s' s'' ⟨names, none, grows⟩ ⟨names', none', grows'⟩
    refine ⟨names ++ names', fun isExpr => ?_, grows.trans grows'⟩
    rw [none isExpr, none' isExpr]
    rfl
  rel_stmt := fun ⟨names, _, grows⟩ => ⟨names, nofun, grows⟩
  rel_call call := ⟨[], fun _ => rfl, call _⟩
  node_rel := fun within ⟨_, _, grows⟩ _ v covers => within v (covers.shrink grows)
  below_node within v covers := by
    rw [Sight.extend_nil]
    exact within v covers
  below_closed := by
    rintro σ e s s' bindings - ⟨names, none, grows⟩ within v covers
    rw [none rfl] at grows
    have outside := covers.shrink grows.closed
    have inside := outside.inside (bindings.map (·.1)) fun b hb => List.mem_map_of_mem hb
    have after := inside.grow grows
    rw [Sight.extend_nil] at after
    exact within _ after
  make _ _ _ _ parts made v covers :=
    made.within covers (fun plain p hp => parts plain p hp v covers) fun below => below v covers
  depend _ _ _ := ⟨trivial, [], fun _ => rfl, .same _ _ rfl rfl⟩
  retype {_ σ s e _ ty} _ _ within _ _ := by
    have grows := Grows.refined within ty
    refine ⟨trivial, ⟨[], fun _ => rfl, grows⟩, fun v covers => ?_⟩
    exact (within v (covers.shrink grows)).retype ty
  closeScope := by
    rintro n m σ s bindings s' - - - ⟨names, none, grows⟩ -
    exact ⟨trivial, names, none, grows.closed⟩
  declare _ _ _ _ _ _ := ⟨trivial, _, nofun, .declare ..⟩
  join {_ σ s id owner ty found} _ _ _ _ _ owned _ :=
    ⟨trivial, [], nofun, .rebind (State.binds_of_localOwner? owned) ..⟩
  joinAttribute _ _ _ _ _ _ := ⟨trivial, ⟨[], nofun, .same _ _ rfl rfl⟩, trivial⟩
  register _ _ _ _ := ⟨trivial, [], nofun, .same _ _ rfl rfl⟩
  merge _ _ _ _ _ _ _ := ⟨trivial, ⟨[], nofun, .same _ _ rfl rfl⟩, trivial⟩
  answer _ _ _ _ _ _ := ⟨trivial, fun body => .same body [] rfl rfl, trivial⟩
  leave := by
    rintro n s key cell args definition definitions params s' block - - - beginning - - -
      ⟨names, -, grows⟩ - -
    have functions := Law.sameShape_begin beginning.begins
    have closed : Grows s.scopes.size names (s.begun key cell definitions params)
      (s'.closed s.scopes.size) := grows.closed
    have whole : Grows s.scopes.size names s (s'.closed s.scopes.size) :=
      ⟨closed.links, closed.kept,
        fun binds => (closed.new binds).imp_right (.imp_right (State.isFunction_congr functions).mp),
        closed.functions.trans functions⟩
    refine ⟨trivial, fun body => ?_, trivial⟩
    have outside := whole.outside body
    exact ⟨outside.links, outside.kept, outside.new, outside.functions⟩

/-! ## Statements -/

/-- A block that assigns some names and refers to nothing out of sight. -/
structure Fits (v : Sight) (names : List String) (block : List Stmt) : Prop where
  assigned : blockAssigned block = names
  within : blockWithin v block

theorem Fits.nil : Fits v [] [] := ⟨rfl, trivial⟩

theorem Fits.single (st : Stmt) (within : st.Within v) : Fits v st.assigned [st] :=
  ⟨List.append_nil _, within, trivial⟩

theorem Fits.append {names names' : List String} {as bs : List Stmt} (a : Fits v names as)
    (b : Fits (v.extend names) names' bs) : Fits v (names ++ names') (as ++ bs) where
  assigned := by rw [blockAssigned_append, a.assigned, b.assigned]
  within := blockWithin_append.mpr ⟨a.within, a.assigned ▸ b.within⟩

variable {α β : Type}

/-- From `s`, where `v` covers what is in sight at a site, a run binds some names in the scope of
its body, which `post` tells with its result. -/
def Sees (v : Sight) (σ : Site) (s : State) (act : Run α) (post : List String → α → Prop) : Prop :=
  Covers v σ s → Runs act s (fun a s' => ∃ names, Grows σ.body names s s' ∧ post names a)
    fun _ _ => True

namespace Sees

variable {setting : Setting} {n : Nat} {act : Run α} {post post' : List String → α → Prop}

theorem imp (sees : Sees v σ s act post) (weaker : ∀ names a, post names a → post' names a) :
    Sees v σ s act post' := fun covers =>
  Runs.imp (sees covers) (fun a _ ⟨names, grows, ha⟩ => ⟨names, grows, weaker names a ha⟩)
    fun _ _ h => h

theorem bind {f : α → Run β} {after : List String → β → Prop} (sees : Sees v σ s act post)
    (next : ∀ names a s', post names a →
      Sees (v.extend names) σ s' (f a) fun names' => after (names ++ names')) :
    Sees v σ s (act >>= f) after := fun covers => by
  refine (sees covers).bind fun a s' ⟨names, grows, ha⟩ => ?_
  refine (next names a s' ha (covers.grow grows)).imp ?_ fun _ _ h => h
  rintro b s'' ⟨names', grows', hb⟩
  exact ⟨names ++ names', grows.trans grows', hb⟩

/-- What an expression looks up is in sight before it and after it. -/
theorem expr_bind {f : α → Run β} {found : α → State → Prop} {after : List String → β → Prop}
    (holds : (sightLaw setting).Holds n .expr σ s act found)
    (next : ∀ a s', Covers v σ s' → (sightLaw setting).Moves .expr σ s s' → found a s' →
      Sees v σ s' (f a) after) :
    Sees v σ s (act >>= f) after := fun covers => by
  refine (Runs.imp holds (fun _ _ h => h) fun _ _ _ => trivial).bind fun a s' ⟨_, move, ha⟩ => ?_
  obtain ⟨names, none, grows⟩ := move.rel
  rw [none rfl] at grows
  have covers' : Covers v σ s' := by
    rw [← v.extend_nil]
    exact covers.grow grows
  refine (next a s' covers' move ha covers').imp ?_ fun _ _ h => h
  rintro b s'' ⟨names', grows', hb⟩
  exact ⟨names', grows.trans grows', hb⟩

theorem map {f : α → β} {after : List String → β → Prop}
    (sees : Sees v σ s act fun names a => after names (f a)) : Sees v σ s (f <$> act) after :=
  fun covers => Runs.map (sees covers)

theorem pure {a : α} (ha : post [] a) : Sees v σ s (Pure.pure a) post :=
  fun _ => Runs.pure ⟨[], .refl _ s, ha⟩

theorem get {f : State → Run α} (sees : Sees v σ s (f s) post) :
    Sees v σ s (MonadState.get >>= f) post :=
  fun covers => Runs.get (sees covers)

theorem fail {cause : Cause} : Sees v σ s (fail cause) post := fun _ => Runs.fail trivial

theorem failAt {pos : Pos} {cause : Cause} : Sees v σ s (failAt pos cause) post :=
  fun _ => Runs.failAt trivial

theorem check_bind {f : α → Run β} {result : Except Cause α} {after : List String → β → Prop}
    (ok : ∀ a, result = .ok a → Sees v σ s (f a) after) :
    Sees v σ s (check result >>= f) after :=
  fun covers => Runs.check_bind (fun a ha => ok a ha covers) fun _ _ => trivial

theorem walk_bind {ends : Bool} {f : Unit → Run α} (sees : Sees v σ s (f ()) post) :
    Sees v σ s (walk ends >>= f) post :=
  fun covers => Runs.walk_bind (fun _ => sees covers) fun _ => trivial

theorem located {pos : Pos} (sees : Sees v σ s act post) : Sees v σ s (located pos act) post :=
  fun covers => Runs.located (sees covers)

/-- In a new scope its variables are in sight too; what is bound outside of it stays. -/
theorem inScope {bindings : List (String × Ty)} {act : ScopeId → Run α} {names : List String}
    (bound : ∀ b ∈ bindings, b.1 ∈ names)
    (sees : Sees (v.extend names) (σ.inScope s.scopes.size) (s.opened σ.scope bindings)
      (act s.scopes.size) post) :
    Sees v σ s (inScope σ.scope bindings act) post := fun covers => by
  refine Runs.inScope ((sees (covers.inside names bound)).imp ?_ fun _ _ h => h)
  rintro a s' ⟨names', grows, ha⟩
  exact ⟨names', grows.closed, ha⟩

end Sees

/-! ## Assignments -/

variable {setting : Setting} {n : Nat} {infer : Infer} {ctx : Context}

/-- A statement that assigns what it says and refers to nothing out of sight. -/
abbrev SeesStmt (v : Sight) (σ : Site) (s : State) (act : Run Stmt) : Prop :=
  Sees v σ s act fun names st => Fits v names [st]

theorem assignName_sees {pos : Pos} {id : String} {value : Expr} (within : value.Within v) :
    SeesStmt v ctx.site s (assignName ⟨setting, infer⟩ ctx pos id value) := by
  have fits : Fits v [id] [.localAssignment id value] := .single (.localAssignment id value) within
  unfold assignName
  split
  · exact Sees.failAt
  split
  · exact Sees.failAt
  have read : (sightLaw setting).Holds 0 .expr ctx.site s (localOwner ctx id)
    fun owner s' => owner = s.localOwner? ctx.site id ∧ s' = s :=
  Law.Holds.localOwner ⟨trivial, trivial⟩
  refine Sees.expr_bind read ?_
  rintro _ s' _ _ ⟨rfl, rfl⟩
  split
  · next owner owned =>
    refine Sees.get (Sees.walk_bind ?_)
    split
    · next ty _ =>
      have grows : Grows ctx.site.body [] s' (s'.bound owner id ty) :=
        .rebind (State.binds_of_localOwner? owned) ctx.site.body ty
      exact fun _ => Runs.define_bind (Runs.pure ⟨[id], grows.mono (List.nil_subset _), fits⟩)
        fun _ => trivial
    · exact fun _ => Runs.failAt_bind trivial
  · exact fun _ => Runs.define_bind (Runs.pure ⟨[id], .declare .., fits⟩) fun _ => trivial

theorem attributeAfter_runs (pos : Pos) (object : Expr) (throughThis : Bool) (attr : String)
    (assigned : Ty) (s : State) :
    Runs (attributeAfter ⟨setting, infer⟩ pos object throughThis attr assigned) s
      (fun _ s' => ∃ hierarchy, s' = s.withHierarchy hierarchy) fun _ _ => True := by
  unfold attributeAfter
  refine Runs.get (Runs.walk_bind (fun _ => ?_) fun _ => trivial)
  split
  · refine Runs.walk_bind (fun _ => ?_) fun _ => trivial
    split
    · exact Runs.failAt trivial
    · exact Runs.modify_bind (Runs.pure ⟨_, rfl⟩)
  · split
    · exact Runs.modify_bind (Runs.pure ⟨_, rfl⟩)
    · exact Runs.failAt trivial

theorem attributeAfter_sees {pos : Pos} {object : Expr} {throughThis : Bool} {attr : String}
    {assigned : Ty} :
    Sees v σ s (attributeAfter ⟨setting, infer⟩ pos object throughThis attr assigned)
      fun names _ => names = [] := fun _ => by
  refine (attributeAfter_runs pos object throughThis attr assigned s).imp ?_ fun _ _ h => h
  rintro ty _ ⟨hierarchy, rfl⟩
  exact ⟨[], .same _ _ rfl rfl, rfl⟩

theorem assignAttribute_sees {pos : Pos} {object value : Expr} {attr : String}
    (withinObject : object.Within v) (within : value.Within v) :
    SeesStmt v σ s (assignAttribute ⟨setting, infer⟩ pos object attr value) := by
  unfold assignAttribute
  refine Sees.get ?_
  split
  · exact Sees.failAt
  split
  · next isThis =>
    refine attributeAfter_sees.bind ?_
    rintro _ ty s' rfl
    refine Sees.pure (Fits.single (.instanceAssignment attr value) ⟨?_, within⟩)
    have refers := withinObject.refers
    rwa [Expr.Refers, isThis] at refers
  · refine attributeAfter_sees.bind ?_
    rintro _ ty s' rfl
    have withinTarget : Expr.Within v ⟨.attr object attr, ty⟩ := by
      refine .of_children rfl trivial fun c hc => ?_
      rw [List.mem_singleton.mp hc]
      exact withinObject
    exact Sees.pure (Fits.single (.attrAssignment _ value) ⟨withinTarget, within⟩)

theorem assignElement_sees {sequence place value : Expr}
    (knownSequence : (sightLaw setting).Node ctx.site s sequence) (withinPlace : place.Within v)
    (within : value.Within v) :
    SeesStmt v ctx.site s (assignElement ctx sequence place value) := by
  have finish : ∀ {sequence s'}, sequence.Within v →
      SeesStmt v ctx.site s' (pure (.indexAssignment sequence place value)) :=
    fun withinSequence => Sees.pure (Fits.single (.indexAssignment _ place value)
      ⟨withinSequence, withinPlace, within⟩)
  unfold assignElement
  refine Sees.get (Sees.walk_bind (Sees.check_bind fun stored storedAt => ?_))
  split
  · exact fun covers => finish (knownSequence v covers) covers
  · have at_s : (sightLaw setting).At 0 ctx.site s := ⟨trivial, trivial⟩
    have refined := Law.refine_holds at_s knownSequence (fun _ _ => trivial) (.stored storedAt)
    exact Sees.expr_bind refined fun sequence _ covers _ known => finish (known v covers)

theorem at_sight (n : Nat) (σ : Site) (s : State) : (sightLaw setting).At n σ s := ⟨trivial, trivial⟩

section Leaves

variable (infers : (sightLaw setting).Infers n infer)

include infers

/-- An expression looks names up where it stands. -/
theorem expr_looks (e : Tree.Expr) (ctx : Context) (s : State) :
    (sightLaw setting).Holds n .expr ctx.site s (expr ⟨setting, infer⟩ e ctx)
      fun e s' => (sightLaw setting).Node ctx.site s' e :=
  Law.expr_holds infers False.elim (at_sight n ctx.site s)

theorem assignTo_sees {target : Tree.Expr} {value : Expr} (within : value.Within v) :
    SeesStmt v ctx.site s (assignTo ⟨setting, infer⟩ ctx target value) := by
  obtain ⟨targetKind, pos⟩ := target
  unfold assignTo
  dsimp only
  split
  · exact assignName_sees within
  · next object attr =>
    refine Sees.expr_bind (expr_looks infers object ctx s) fun object s' covers _ known => ?_
    exact assignAttribute_sees (known v covers) within
  · next sequence place =>
    refine Sees.expr_bind (expr_looks infers sequence ctx s) fun sequence s₁ _ _ known => ?_
    refine Sees.expr_bind (expr_looks infers place ctx s₁) fun place s₂ covers move known' => ?_
    exact assignElement_sees (move.node known) (known' v covers) within
  · exact Sees.fail
  · exact Sees.fail
  · exact Sees.fail
  · exact Sees.fail

/-! ## Statements without blocks -/

theorem assignNode_sees {targets : List Tree.Expr} {value : Tree.Expr} :
    SeesStmt v ctx.site s (assignNode ⟨setting, infer⟩ ctx targets value) := by
  unfold assignNode
  split
  · refine Sees.expr_bind (expr_looks infers value ctx s) fun value s' covers _ known => ?_
    exact assignTo_sees infers (known v covers)
  · exact Sees.fail

theorem augAssignNode_sees {target value : Tree.Expr} {op : Tree.BinaryOperator} :
    SeesStmt v ctx.site s (augAssignNode ⟨setting, infer⟩ ctx target op value) := by
  unfold augAssignNode
  refine Sees.expr_bind (expr_looks infers target ctx s) fun current s₁ _ _ known => ?_
  refine Sees.expr_bind (expr_looks infers value ctx s₁) fun value s₂ covers move known' => ?_
  refine Sees.check_bind fun combined made => ?_
  have parts : ∀ p ∈ [current, value], (sightLaw setting).Node ctx.site s₂ p := by
    simp only [List.mem_cons, List.not_mem_nil, or_false, forall_eq_or_imp, forall_eq]
    exact ⟨move.node known, known'⟩
  have knownCombined := (at_sight n ctx.site s₂).make parts (.binary made)
  exact assignTo_sees infers (knownCombined v covers)

theorem returnNode_sees {value : Option Tree.Expr} :
    SeesStmt v ctx.site s (returnNode ⟨setting, infer⟩ ctx value) := by
  unfold returnNode
  split
  · exact Sees.fail
  next key cell _ =>
  split
  · exact Sees.fail
  refine Sees.expr_bind (Law.returnValue_holds infers False.elim (at_sight n ctx.site s))
    fun node s₁ covers _ known => ?_
  have fits : Fits v [] [.ret ctx.isLast node] := .single (.ret ctx.isLast node) (known v covers)
  split
  · refine Sees.get (Sees.check_bind fun merged _ _ => ?_)
    exact Runs.modify_bind (Runs.pure ⟨[], .same _ _ rfl rfl, fits⟩)
  · exact Sees.pure fits

theorem raiseNode_sees {exc : Tree.Expr} :
    SeesStmt v ctx.site s (raiseNode ⟨setting, infer⟩ ctx exc) := by
  obtain ⟨kind, pos⟩ := exc
  unfold raiseNode
  dsimp only
  split
  · split
    · next id _ =>
      refine Sees.get ?_
      split
      · exact Sees.failAt
      split
      · next message =>
        refine Sees.expr_bind (expr_looks infers message ctx s) fun value s' covers _ known => ?_
        split
        · exact Sees.pure (Fits.single (.throw id value) (known v covers))
        · exact Sees.failAt
      · exact Sees.fail
    · exact Sees.fail
  · exact Sees.fail

theorem withNode_sees {items : List Tree.WithItem} {body : List Tree.Stmt} :
    SeesStmt v ctx.site s (withNode ⟨setting, infer⟩ ctx items body) := by
  unfold withNode
  dsimp only
  split
  · exact Sees.failAt
  · exact Sees.fail
  · next path target pos _ =>
    refine Sees.expr_bind (expr_looks infers path ctx s) fun path s₁ _ _ known => ?_
    have nodes : ∀ e ∈ [path], (sightLaw setting).Node ctx.site s₁ e := by simpa using known
    refine Sees.expr_bind (Law.expand_holds (.builtin (by decide)) (at_sight n ctx.site s₁) nodes)
      fun text s₂ covers _ known => ?_
    exact Sees.located (assignTo_sees infers (known v covers))
  · next path text pos _ =>
    refine Sees.expr_bind (expr_looks infers path ctx s) fun path s₁ _ _ known => ?_
    refine Sees.expr_bind (expr_looks infers text ctx s₁) fun text s₂ _ move known' => ?_
    have nodes : ∀ e ∈ [path, text], (sightLaw setting).Node ctx.site s₂ e := by
      simp only [List.mem_cons, List.not_mem_nil, or_false, forall_eq_or_imp, forall_eq]
      exact ⟨move.node known, known'⟩
    refine Sees.expr_bind (Law.Holds.located (Law.expand_holds (.builtin (by decide))
      (at_sight n ctx.site s₂) nodes)) fun e s₃ covers _ known => ?_
    exact Sees.pure (Fits.single (.expr e) (known v covers))

end Leaves

theorem jumpNode_sees {what : String} {jump : Stmt} (fits : Fits v [] [jump]) :
    SeesStmt v σ s (jumpNode ctx what jump) := by
  unfold jumpNode
  split
  · exact Sees.pure fits
  · exact Sees.fail

theorem nextException_sees (setting : Setting) {pos : Pos} {type : Option Tree.Expr}
    {caught : List String} :
    Sees v ctx.site s (nextException pos type caught) fun names _ => names = [] := fun _ => by
  have holds : (sightLaw setting).Holds 0 .stmt ctx.site s (nextException pos type caught)
    fun exception s' => s' = s ∧ s.hierarchy.isException exception :=
      Law.nextException_holds (at_sight 0 ctx.site s)
  refine Runs.imp holds ?_ fun _ _ _ => trivial
  rintro exception _ ⟨-, -, rfl, -⟩
  exact ⟨[], .refl _ _, rfl⟩

/-! ## Blocks -/

/-- What follows a test assigns some names and refers to nothing out of sight. -/
structure OtherwiseFits (v : Sight) (names : List String) (o : Otherwise) : Prop where
  assigned : o.assigned = names
  within : o.Within v

structure HandlersFit (v : Sight) (names : List String) (handlers : List Handler) : Prop where
  assigned : handlersAssigned handlers = names
  within : handlersWithin v handlers

theorem Fits.loop {head : LoopHead} {names : List String} {block : List Stmt}
    (within : ∀ e ∈ head.roots, e.Within v)
    (fits : Fits (v.extend (head.binders.map (·.name))) names block) :
    Fits v names [head.stmt block] := by
  have assigned : (head.stmt block).assigned = names := by
    rw [← fits.assigned]
    cases head <;> rfl
  rw [← assigned]
  refine .single _ ?_
  cases head with
  | range start stop step index =>
    refine ⟨?_, fits.within⟩
    simpa [LoopHead.roots] using within
  | iterate sequence iterators => exact ⟨within, fits.within⟩

theorem testOf_looks (infers : (sightLaw setting).Infers n infer) (test : Tree.Expr) (ctx : Context)
    (s : State) :
    (sightLaw setting).Holds n .expr ctx.site s (testOf ⟨setting, infer⟩ ctx test)
      fun e s' => (sightLaw setting).Node ctx.site s' e :=
  (Law.testOf_holds infers False.elim (at_sight n ctx.site s)).imp fun _ _ _ _ test => test.node

mutual

/-- What a statement refers to is in sight where it stands. -/
theorem stmt_sees (infers : (sightLaw setting).Infers n infer) :
    ∀ (st : Tree.Stmt) (ctx : Context) (v : Sight) (s : State),
    Sees v ctx.site s (stmt ⟨setting, infer⟩ st ctx) fun names o => Fits v names o.toList
  | ⟨kind, pos⟩, ctx, v, s => by
    simp only [stmt]
    exact Sees.located (stmtKind_sees infers kind ctx v s)

theorem stmtKind_sees (infers : (sightLaw setting).Infers n infer) :
    ∀ (kind : Tree.StmtKind) (ctx : Context) (v : Sight) (s : State),
    Sees v ctx.site s (stmtKind ⟨setting, infer⟩ kind ctx) fun names o => Fits v names o.toList
  | .expr value, ctx, v, s => by
    simp only [stmtKind]
    refine Sees.expr_bind (expr_looks infers value ctx s) fun node s' covers _ known => ?_
    exact Sees.pure (Fits.single (.expr node) (known v covers))
  | .assign targets value, ctx, v, s => by
    simp only [stmtKind]
    exact Sees.map (assignNode_sees infers)
  | .augAssign target op value, ctx, v, s => by
    simp only [stmtKind]
    exact Sees.map (augAssignNode_sees infers)
  | .ret value, ctx, v, s => by
    simp only [stmtKind]
    exact Sees.map (returnNode_sees infers)
  | .ifElse test body orelse, ctx, v, s => by
    simp only [stmtKind]
    refine Sees.expr_bind (testOf_looks infers test ctx s) fun test s₁ covers _ known => ?_
    refine (block_sees infers body ctx v s₁).bind fun names inside s₂ fits => ?_
    refine (otherwise_sees infers orelse (block_sees infers orelse) ctx _ s₂).bind
      fun names' after s₃ fits' => Sees.pure ?_
    -- the second branch is read with the names that the first one assigns
    have within : (Stmt.ifElse test inside after).Within v :=
      ⟨known v covers, fits.within, fits.assigned ▸ fits'.within⟩
    have all := Fits.single _ within
    rwa [Stmt.assigned, fits.assigned, fits'.assigned, ← List.append_nil names'] at all
  | .whileLoop test body [], ctx, v, s => by
    simp only [stmtKind]
    refine Sees.expr_bind (testOf_looks infers test ctx s) fun test s₁ covers _ known => ?_
    refine (block_sees infers body ctx.looping v s₁).bind fun names inside s₂ fits => Sees.pure ?_
    have all := Fits.single (.whileLoop test inside) ⟨known v covers, fits.within⟩
    rwa [Stmt.assigned, fits.assigned, ← List.append_nil names] at all
  | .whileLoop _ _ (_ :: _), _, _, _ => Sees.fail
  | .forLoop target iter body [], ctx, v, s => by
    simp only [stmtKind]
    refine Sees.expr_bind (Law.loopHead_holds infer (Law.expr_evaluates infers iter False.elim)
      (Law.iterated_evaluates infers iter False.elim) (at_sight n ctx.site s))
      fun head s₁ covers _ ⟨known, _⟩ => ?_
    have bound : ∀ b ∈ bindings head.binders, b.1 ∈ head.binders.map (·.name) := by
      intro b hb
      obtain ⟨binder, hbinder, rfl⟩ := List.mem_map.mp hb
      exact List.mem_map_of_mem hbinder
    refine (Sees.inScope bound (block_sees infers body
      (ctx.inScope s₁.scopes.size).looping _ _)).bind fun names inside s₂ fits => Sees.pure ?_
    rw [List.append_nil]
    exact .loop (fun e he => known.nodes e he v covers) fits
  | .forLoop _ _ _ (_ :: _), _, _, _ => Sees.fail
  | .tryExcept body cases [] [], ctx, v, s => by
    simp only [stmtKind]
    refine (block_sees infers body (ctx.last false) v s).bind fun names inside s₁ fits => ?_
    refine (handlers_see infers cases [] (ctx.last false) _ s₁).bind
      fun names' others s₂ fits' => Sees.pure ?_
    have within : (Stmt.tryExcept inside others).Within v :=
      ⟨fits.within, fits.assigned ▸ fits'.within⟩
    have all := Fits.single _ within
    rwa [Stmt.assigned, fits.assigned, fits'.assigned, ← List.append_nil names'] at all
  | .tryExcept _ _ (_ :: _) _, _, _, _ => Sees.fail
  | .tryExcept _ _ [] (_ :: _), _, _, _ => Sees.fail
  | .raise none (some _), _, _, _ => Sees.fail
  | .raise (some _) (some _), _, _, _ => Sees.fail
  | .raise none none, _, _, _ => Sees.fail
  | .raise (some exc) none, ctx, v, s => by
    simp only [stmtKind]
    exact Sees.map (raiseNode_sees infers)
  | .withItems items body, ctx, v, s => by
    simp only [stmtKind]
    exact Sees.map (withNode_sees infers)
  | .breakLoop, ctx, v, s => by
    simp only [stmtKind]
    exact Sees.map (jumpNode_sees (.single .breakLoop trivial))
  | .continueLoop, ctx, v, s => by
    simp only [stmtKind]
    exact Sees.map (jumpNode_sees (.single .continueLoop trivial))
  | .pass, _, _, _ => Sees.pure .nil
  | .functionDef _, _, _, _ => Sees.fail
  | .classDef _, _, _, _ => Sees.fail
  | .importNames _, _, _, _ => Sees.fail
  | .importFrom .., _, _, _ => Sees.fail
  | .globalNames _, _, _, _ => Sees.fail
  | .nonlocalNames _, _, _, _ => Sees.fail
  | .delete _, _, _, _ => Sees.fail

theorem otherwise_sees (infers : (sightLaw setting).Infers n infer) :
    ∀ (orelse : List Tree.Stmt) {whole : Context → Run (List Stmt)},
    (∀ (ctx : Context) (v : Sight) (s : State), Sees v ctx.site s (whole ctx) (Fits v)) →
    ∀ (ctx : Context) (v : Sight) (s : State),
    Sees v ctx.site s (otherwise ⟨setting, infer⟩ whole orelse ctx) (OtherwiseFits v)
  | [], _, _, _, _, _ => Sees.pure ⟨rfl, trivial⟩
  | [⟨kind, pos⟩], whole, seesWhole, ctx, v, s => by
    cases kind with
    | ifElse test body orelse =>
      simp only [otherwise]
      refine Sees.located ?_
      refine Sees.expr_bind (testOf_looks infers test ctx s) fun test s₁ covers _ known => ?_
      refine (block_sees infers body ctx v s₁).bind fun names inside s₂ fits => ?_
      refine (otherwise_sees infers orelse (block_sees infers orelse) ctx _ s₂).bind
        fun names' after s₃ fits' => Sees.pure ⟨?_, ?_⟩
      · rw [Otherwise.assigned, fits.assigned, fits'.assigned, List.append_nil]
      · exact ⟨known v covers, fits.within, fits.assigned ▸ fits'.within⟩
    | _ =>
      simp only [otherwise]
      exact Sees.map ((seesWhole ctx v s).imp fun _ _ fits => ⟨fits.assigned, fits.within⟩)
  | _ :: _ :: _, whole, seesWhole, ctx, v, s => by
    simp only [otherwise]
    exact Sees.map ((seesWhole ctx v s).imp fun _ _ fits => ⟨fits.assigned, fits.within⟩)

theorem block_sees (infers : (sightLaw setting).Infers n infer) :
    ∀ (body : List Tree.Stmt) (ctx : Context) (v : Sight) (s : State),
    Sees v ctx.site s (block ⟨setting, infer⟩ body ctx) (Fits v)
  | [], _, _, _ => Sees.pure .nil
  | st :: rest, ctx, v, s => by
    simp only [block]
    refine (stmt_sees infers st (ctx.last (ctx.isLast && rest.isEmpty)) v s).bind
      fun names node s₁ fits => ?_
    refine (block_sees infers rest ctx _ s₁).bind fun names' nodes s₂ fits' => Sees.pure ?_
    rw [List.append_nil]
    exact fits.append fits'

theorem handlers_see (infers : (sightLaw setting).Infers n infer) :
    ∀ (cases : List Tree.ExceptHandler) (caught : List String) (ctx : Context) (v : Sight)
      (s : State),
    Sees v ctx.site s (handlers ⟨setting, infer⟩ cases caught ctx) (HandlersFit v)
  | [], _, _, _, _ => Sees.pure ⟨rfl, trivial⟩
  | ⟨type, name, body, pos⟩ :: rest, caught, ctx, v, s => by
    simp only [handlers]
    refine (nextException_sees setting).bind ?_
    rintro _ exception s₁ rfl
    rw [Sight.extend_nil]
    have bound : ∀ b ∈ handlerBindings exception name, b.1 ∈ name.toList := by
      intro b hb
      obtain ⟨x, hx, rfl⟩ := List.mem_map.mp hb
      exact hx
    refine (Sees.located (Sees.inScope bound (block_sees infers body
      (ctx.inScope s₁.scopes.size) _ _))).bind fun names handled s₂ fits => ?_
    refine (handlers_see infers rest (caught ++ [exception]) ctx _ s₂).bind
      fun names' others s₃ fits' => Sees.pure ⟨?_, fits.within, fits.assigned ▸ fits'.within⟩
    rw [handlersAssigned, fits.assigned, fits'.assigned, List.append_nil, List.nil_append]

end

end Translate

end TreeTyper
