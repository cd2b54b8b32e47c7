import TreeTyper.Proofs.Caller.Scopes
import TreeTyper.Proofs.Law.Expr
import TreeTyper.Proofs.Law.Frame
import TreeTyper.Proofs.Skeleton
import TreeTyper.Translate.Stmt

/-!
# Statements keep every law

A statement binds names in the scope of its body only; the expressions that end
up in it are kept as the tables change further.

    L.Infers n infer → L.AdmitsBlock key? b → the block b keeps the law        (Law.block_holds)
-/

namespace TreeTyper.Translate

open Typed

/-- A statement keeps what a block keeps. -/
structure StmtKeeps (kept : List String → Expr → Prop) (returned : Expr → Prop)
    (fine : Ty → Prop) (s : Stmt) : Prop where
  placed : ∀ x ∈ s.placed, kept x.1 x.2
  tests : ∀ e ∈ s.tests, e.type = .boolean
  returns : ∀ e ∈ s.returned, returned e
  binders : ∀ b ∈ s.binders, fine b.type

/-- What follows a test keeps what a block keeps. -/
structure OtherwiseKeeps (kept : List String → Expr → Prop) (returned : Expr → Prop)
    (fine : Ty → Prop) (o : Otherwise) : Prop where
  placed : ∀ x ∈ o.placed, kept x.1 x.2
  tests : ∀ e ∈ o.tests, e.type = .boolean
  returns : ∀ e ∈ o.returned, returned e
  binders : ∀ b ∈ o.binders, fine b.type

/-- Handlers keep what their blocks keep below the names that they catch. -/
structure HandlersKeep (kept : List String → Expr → Prop) (returned : Expr → Prop)
    (fine : Ty → Prop) (handlers : List Handler) : Prop where
  placed : ∀ x ∈ handlerPlaced handlers, kept x.1 x.2
  tests : ∀ e ∈ handlerTests handlers, e.type = .boolean
  returns : ∀ e ∈ handlerReturned handlers, returned e
  binders : ∀ b ∈ handlerBinders handlers, fine b.type

section Keeping

variable {kept kept' : List String → Expr → Prop} {returned returned' : Expr → Prop}
  {fine : Ty → Prop}

/-- A statement without blocks that is no return. -/
theorem StmtKeeps.simple {st : Stmt} (placed : st.placed = st.roots.map ([], ·))
    (keeps : ∀ e ∈ st.roots, kept [] e) (tests : st.tests = []) (returns : st.returned = [])
    (binders : st.binders = []) : StmtKeeps kept returned fine st :=
  ⟨by rw [placed]; exact List.forall_mem_map.mpr keeps, by simp [tests], by simp [returns],
    by simp [binders]⟩

theorem BlockKeeps.nil : BlockKeeps kept returned [] fine :=
  ⟨by simp [blockPlaced], by simp [blockTests], by simp [blockReturned], by simp [blockBinders]⟩

theorem BlockKeeps.append {as bs : List Stmt} (a : BlockKeeps kept returned as fine)
    (b : BlockKeeps kept returned bs fine) : BlockKeeps kept returned (as ++ bs) fine := by
  constructor
  · rw [blockPlaced_append]
    exact List.forall_mem_append.mpr ⟨a.placed, b.placed⟩
  · rw [blockTests_append]
    exact List.forall_mem_append.mpr ⟨a.tests, b.tests⟩
  · rw [blockReturned_append]
    exact List.forall_mem_append.mpr ⟨a.returns, b.returns⟩
  · rw [blockBinders_append]
    exact List.forall_mem_append.mpr ⟨a.binders, b.binders⟩

theorem BlockKeeps.ofOption {o : Option Stmt} (keeps : ∀ st ∈ o, StmtKeeps kept returned fine st) :
    BlockKeeps kept returned o.toList fine := by
  cases o with
  | none => exact .nil
  | some st =>
    have keeps := keeps st rfl
    constructor
    · simpa [blockPlaced] using keeps.placed
    · simpa [blockTests] using keeps.tests
    · simpa [blockReturned] using keeps.returns
    · simpa [blockBinders] using keeps.binders

theorem BlockKeeps.imp {block : List Stmt} (keeps : BlockKeeps kept returned block fine)
    (weaker : ∀ names e, kept names e → kept' names e) (weaker' : ∀ e, returned e → returned' e) :
    BlockKeeps kept' returned' block fine :=
  ⟨fun x hx => weaker x.1 x.2 (keeps.placed x hx), keeps.tests,
    fun e he => weaker' e (keeps.returns e he), keeps.binders⟩

theorem StmtKeeps.imp {st : Stmt} (keeps : StmtKeeps kept returned fine st)
    (weaker : ∀ names e, kept names e → kept' names e) (weaker' : ∀ e, returned e → returned' e) :
    StmtKeeps kept' returned' fine st :=
  ⟨fun x hx => weaker x.1 x.2 (keeps.placed x hx), keeps.tests,
    fun e he => weaker' e (keeps.returns e he), keeps.binders⟩

theorem StmtKeeps.ret {isLast : Bool} {value : Expr} (keeps : kept [] value)
    (returns : returned value) : StmtKeeps kept returned fine (.ret isLast value) :=
  ⟨by simpa [Stmt.placed, Stmt.roots] using keeps, by simp [Stmt.tests],
    by simpa [Stmt.returned] using returns, by simp [Stmt.binders]⟩

theorem StmtKeeps.ifElse {test : Expr} {block : List Stmt} {o : Otherwise} (keeps : kept [] test)
    (condition : test.type = .boolean) (keepsBlock : BlockKeeps kept returned block fine)
    (keepsRest : OtherwiseKeeps kept returned fine o) :
    StmtKeeps kept returned fine (.ifElse test block o) := by
  constructor
  · rw [Stmt.placed, List.forall_mem_cons, List.forall_mem_append]
    exact ⟨keeps, keepsBlock.placed, keepsRest.placed⟩
  · rw [Stmt.tests, List.forall_mem_cons, List.forall_mem_append]
    exact ⟨condition, keepsBlock.tests, keepsRest.tests⟩
  · rw [Stmt.returned, List.forall_mem_append]
    exact ⟨keepsBlock.returns, keepsRest.returns⟩
  · rw [Stmt.binders, List.forall_mem_append]
    exact ⟨keepsBlock.binders, keepsRest.binders⟩

theorem OtherwiseKeeps.nothing : OtherwiseKeeps kept returned fine .nothing :=
  ⟨by simp [Otherwise.placed], by simp [Otherwise.tests], by simp [Otherwise.returned],
    by simp [Otherwise.binders]⟩

theorem OtherwiseKeeps.elseIf {test : Expr} {block : List Stmt} {o : Otherwise}
    (keeps : kept [] test) (condition : test.type = .boolean)
    (keepsBlock : BlockKeeps kept returned block fine)
    (keepsRest : OtherwiseKeeps kept returned fine o) :
    OtherwiseKeeps kept returned fine (.elseIf test block o) := by
  constructor
  · rw [Otherwise.placed, List.forall_mem_cons, List.forall_mem_append]
    exact ⟨keeps, keepsBlock.placed, keepsRest.placed⟩
  · rw [Otherwise.tests, List.forall_mem_cons, List.forall_mem_append]
    exact ⟨condition, keepsBlock.tests, keepsRest.tests⟩
  · rw [Otherwise.returned, List.forall_mem_append]
    exact ⟨keepsBlock.returns, keepsRest.returns⟩
  · rw [Otherwise.binders, List.forall_mem_append]
    exact ⟨keepsBlock.binders, keepsRest.binders⟩

theorem OtherwiseKeeps.block {block : List Stmt} (keeps : BlockKeeps kept returned block fine) :
    OtherwiseKeeps kept returned fine (.block block) :=
  ⟨by simpa [Otherwise.placed] using keeps.placed, by simpa [Otherwise.tests] using keeps.tests,
    by simpa [Otherwise.returned] using keeps.returns,
    by simpa [Otherwise.binders] using keeps.binders⟩

theorem StmtKeeps.whileLoop {test : Expr} {block : List Stmt} (keeps : kept [] test)
    (condition : test.type = .boolean) (keepsBlock : BlockKeeps kept returned block fine) :
    StmtKeeps kept returned fine (.whileLoop test block) := by
  constructor
  · rw [Stmt.placed, List.forall_mem_cons]
    exact ⟨keeps, keepsBlock.placed⟩
  · rw [Stmt.tests, List.forall_mem_cons]
    exact ⟨condition, keepsBlock.tests⟩
  · simpa [Stmt.returned] using keepsBlock.returns
  · simpa [Stmt.binders] using keepsBlock.binders

theorem StmtKeeps.loop {head : LoopHead} {block : List Stmt} (keeps : ∀ e ∈ head.roots, kept [] e)
    (binders : ∀ b ∈ head.binders, fine b.type) (keepsBlock : BlockKeeps kept returned block fine) :
    StmtKeeps kept returned fine (head.stmt block) := by
  have before : ∀ x ∈ head.roots.map fun e => (([] : List String), e), kept x.1 x.2 :=
    List.forall_mem_map.mpr keeps
  cases head with
  | range start stop step index =>
    constructor
    · rw [LoopHead.stmt, Stmt.placed, List.forall_mem_append]
      exact ⟨before, keepsBlock.placed⟩
    · simpa [LoopHead.stmt, Stmt.tests] using keepsBlock.tests
    · simpa [LoopHead.stmt, Stmt.returned] using keepsBlock.returns
    · rw [LoopHead.stmt, Stmt.binders, List.forall_mem_cons]
      exact ⟨binders _ List.mem_cons_self, keepsBlock.binders⟩
  | iterate sequence iterators =>
    constructor
    · rw [LoopHead.stmt, Stmt.placed, List.forall_mem_append]
      exact ⟨before, keepsBlock.placed⟩
    · simpa [LoopHead.stmt, Stmt.tests] using keepsBlock.tests
    · simpa [LoopHead.stmt, Stmt.returned] using keepsBlock.returns
    · rw [LoopHead.stmt, Stmt.binders, List.forall_mem_append]
      exact ⟨binders, keepsBlock.binders⟩

theorem StmtKeeps.tryExcept {block : List Stmt} {handlers : List Handler}
    (keepsBlock : BlockKeeps kept returned block fine)
    (keeps : HandlersKeep kept returned fine handlers) :
    StmtKeeps kept returned fine (.tryExcept block handlers) := by
  constructor
  · rw [Stmt.placed, List.forall_mem_append]
    exact ⟨keepsBlock.placed, keeps.placed⟩
  · rw [Stmt.tests, List.forall_mem_append]
    exact ⟨keepsBlock.tests, keeps.tests⟩
  · rw [Stmt.returned, List.forall_mem_append]
    exact ⟨keepsBlock.returns, keeps.returns⟩
  · rw [Stmt.binders, List.forall_mem_append]
    exact ⟨keepsBlock.binders, keeps.binders⟩

theorem HandlersKeep.nil : HandlersKeep kept returned fine [] :=
  ⟨by simp [handlerPlaced], by simp [handlerTests], by simp [handlerReturned],
    by simp [handlerBinders]⟩

theorem HandlersKeep.cons {exception : String} {name : Option String} {block : List Stmt}
    {rest : List Handler}
    (keepsBlock : BlockKeeps (fun names => kept (names ++ name.toList)) returned block fine)
    (keeps : HandlersKeep kept returned fine rest) :
    HandlersKeep kept returned fine (⟨exception, name, block⟩ :: rest) := by
  constructor
  · rw [handlerPlaced, List.forall_mem_append, List.forall_mem_map]
    exact ⟨keepsBlock.placed, keeps.placed⟩
  · rw [handlerTests, List.forall_mem_append]
    exact ⟨keepsBlock.tests, keeps.tests⟩
  · rw [handlerReturned, List.forall_mem_append]
    exact ⟨keepsBlock.returns, keeps.returns⟩
  · rw [handlerBinders, List.forall_mem_append]
    exact ⟨keepsBlock.binders, keeps.binders⟩

end Keeping

namespace Law

section Kept

variable {setting : Setting} (L : Law setting)

/-- What the law says about a statement at a site. -/
abbrev KeepsStmt (σ : Site) (s : State) : Stmt → Prop :=
  StmtKeeps (fun names => L.Kept σ names s) (L.Returned σ.definition s) L.Fine

abbrev KeepsOtherwise (σ : Site) (s : State) : Otherwise → Prop :=
  OtherwiseKeeps (fun names => L.Kept σ names s) (L.Returned σ.definition s) L.Fine

abbrev KeepsBlock (σ : Site) (s : State) (block : List Stmt) : Prop :=
  BlockKeeps (fun names => L.Kept σ names s) (L.Returned σ.definition s) block L.Fine

/-- What the law says about the block of a handler that catches some names. -/
abbrev KeepsHandler (σ : Site) (s : State) (caught : List String) (block : List Stmt) : Prop :=
  BlockKeeps (fun names => L.Kept σ (names ++ caught) s) (L.Returned σ.definition s) block L.Fine

abbrev KeepHandlers (σ : Site) (s : State) : List Handler → Prop :=
  HandlersKeep (fun names => L.Kept σ names s) (L.Returned σ.definition s) L.Fine

variable {L} {m : Mode} {σ : Site} {s s' : State}

theorem Moves.keepsStmt {st : Stmt} (move : L.Moves m σ s s') (keeps : L.KeepsStmt σ s st) :
    L.KeepsStmt σ s' st :=
  keeps.imp (fun _ _ => move.kept) fun _ => move.returned

theorem Moves.keepsBlock {block : List Stmt} (move : L.Moves m σ s s')
    (keeps : L.KeepsBlock σ s block) : L.KeepsBlock σ s' block :=
  keeps.imp (fun _ _ => move.kept) fun _ => move.returned

/-- Closing a scope changes no node; what the scope bound was not seen below it. -/
theorem KeepsBlock.closed {bindings : List (String × Ty)} {caught : List String} {block : List Stmt}
    (here : L.Here σ s)
    (hidden : ∀ b ∈ bindings, b.1 ∈ caught ∨ s.scopes.lookup σ.scope b.1 = none)
    (move : L.Moves m (σ.inScope s.scopes.size) (s.opened σ.scope bindings) s')
    (keeps : L.KeepsBlock (σ.inScope s.scopes.size) s' block) :
    L.KeepsHandler σ (s'.closed s.scopes.size) caught block :=
  keeps.imp (fun _ _ => L.kept_closed here hidden move.rel) fun _ returned =>
    L.returned_scopes returned _

end Kept

variable {setting : Setting} {L : Law setting} {n : Nat} {s : State} {ctx : Context}
  {infer : Infer}

/-! ## Assignments -/

theorem bound_holds {σ : Site} {id : ScopeId} {name : String} {ty : Ty}
    (own : id = σ.scope ∨ id = σ.body ∨ s.scopes.isAlive id) (at_s : L.At n σ s)
    (kept : L.Inv n (s.bound id name ty) ∧ L.Rel .stmt σ s (s.bound id name ty)) :
    L.Holds n .stmt σ s (define id name ty) fun _ _ => True := by
  have move : L.Moves .stmt σ s (s.bound id name ty) := ⟨kept.2, ⟨.refl _, rfl⟩⟩
  refine Runs.define (fun _ => ⟨at_s.move kept.1 move, move, trivial⟩) fun dead => ?_
  rcases own with own | own | alive
  · exact at_s.dead (.inl own) dead
  · exact at_s.dead (.inr own) dead
  · exact absurd alive dead

theorem assignName_holds (infer : Infer) {pos : Pos} {id : String} {value : Expr}
    (binds : L.Binds ctx.site.key? id) (at_s : L.At n ctx.site s)
    (known : L.Node ctx.site s value) :
    L.Holds n .stmt ctx.site s (assignName ⟨setting, infer⟩ ctx pos id value)
      fun st s' => L.KeepsStmt ctx.site s' st := by
  have finish : ∀ {s'}, L.At n ctx.site s' → L.Moves .stmt ctx.site s s' →
      L.Holds n .stmt ctx.site s' (Pure.pure (.localAssignment id value))
        fun st s'' => L.KeepsStmt ctx.site s'' st := by
    intro s' at' move
    refine Holds.pure at' (.simple rfl ?_ rfl rfl rfl)
    simpa [Stmt.roots] using move.kept (L.kept_node known)
  unfold assignName
  split
  · exact Holds.failAt fun asks => asks
  next changes =>
  split
  · exact Holds.failAt fun asks => asks
  refine Holds.localOwner_bind at_s ?_
  split
  · next owner owned =>
    refine Holds.get (Holds.walk_bind at_s (·.classesEnd.unifyEnds ..) ?_)
    split
    · next ty joins =>
      -- bound before: the binding takes the join of both types
      have kept := L.join at_s.inv at_s.here binds changes (L.fine_node known) owned joins
      have alive : s.scopes.isAlive owner :=
        decide_eq_true (State.binds_of_localOwner? owned).lt_size
      exact (bound_holds (.inr (.inr alive)) at_s kept).bind fun _ s' at' move _ => finish at' move
    · exact Holds.failAt_bind fun asks => asks
  · next free =>
    -- not bound: the name is declared in the scope of the site
    have kept := L.declare at_s.inv at_s.here binds changes (L.fine_node known) free
    exact (bound_holds (.inr (.inl rfl)) at_s kept).bind fun _ s' at' move _ => finish at' move

theorem hierarchy_holds {σ : Site} {h : Hierarchy} (at_s : L.At n σ s)
    (kept : L.Inv n (s.withHierarchy h) ∧ L.Rel .stmt σ s (s.withHierarchy h))
    (shape : s.hierarchy.SameShape h) :
    L.Holds n .stmt σ s (modify fun s => { s with hierarchy := h }) fun _ _ => True :=
  Holds.modify at_s kept.1 ⟨kept.2, ⟨shape, rfl⟩⟩ trivial

theorem attributeAfter_holds (infer : Infer) {σ : Site} {pos : Pos} {object : Expr}
    {throughThis : Bool} {attr : String} {assigned : Ty} (at_s : L.At n σ s)
    (fine : L.Fine assigned) :
    L.Holds n .stmt σ s (attributeAfter ⟨setting, infer⟩ pos object throughThis attr assigned)
      fun ty _ => L.Fine ty := by
  unfold attributeAfter
  refine Holds.get (Holds.walk_bind at_s (·.classesEnd.attributeEnds ..) ?_)
  split
  · next owner entry found =>
    refine Holds.walk_bind at_s (·.classesEnd.unifyEnds ..) ?_
    split
    · exact Holds.failAt id
    · next ty joins =>
      obtain ⟨inv, rel, fineTy⟩ := L.joinAttribute σ (!throughThis) at_s.inv fine found joins
      refine (hierarchy_holds at_s ⟨inv, rel⟩ (.updateAttribute ..)).bind fun _ s' at' _ _ => ?_
      exact Holds.pure at' fineTy
  · next missing =>
    split
    · have kept := L.register σ at_s.inv fine missing
      refine (hierarchy_holds at_s kept (.registerAttribute ..)).bind fun _ s' at' _ _ => ?_
      exact Holds.pure at' fine
    · exact Holds.failAt id

theorem assignAttribute_holds (infer : Infer) {pos : Pos} {object value : Expr} {attr : String}
    {σ : Site} (at_s : L.At n σ s) (knownObject : L.Node σ s object)
    (known : L.Node σ s value) :
    L.Holds n .stmt σ s (assignAttribute ⟨setting, infer⟩ pos object attr value)
      fun st s' => L.KeepsStmt σ s' st := by
  unfold assignAttribute
  refine Holds.get ?_
  split
  · exact Holds.failAt id
  split
  · refine (attributeAfter_holds infer at_s (L.fine_node known)).bind fun _ s' at' move _ => ?_
    refine Holds.pure at' (.simple rfl ?_ rfl rfl rfl)
    simpa [Stmt.roots] using move.kept (L.kept_node known)
  · refine (attributeAfter_holds infer at_s (L.fine_node known)).bind fun ty s' at' move fine => ?_
    refine Holds.pure at' (.simple rfl ?_ rfl rfl rfl)
    rw [Stmt.roots, List.forall_mem_cons, List.forall_mem_singleton]
    exact ⟨L.kept_target (move.kept (L.kept_node knownObject)) fine, move.kept (L.kept_node known)⟩

theorem assignElement_holds {sequence place value : Expr} (at_s : L.At n ctx.site s)
    (knownSequence : L.Node ctx.site s sequence) (knownPlace : L.Node ctx.site s place)
    (known : L.Node ctx.site s value) :
    L.Holds n .stmt ctx.site s (assignElement ctx sequence place value)
      fun st s' => L.KeepsStmt ctx.site s' st := by
  have finish : ∀ {sequence s'}, L.At n ctx.site s' → L.Moves .stmt ctx.site s s' →
      L.Node ctx.site s' sequence →
      L.Holds n .stmt ctx.site s' (Pure.pure (.indexAssignment sequence place value))
        fun st s'' => L.KeepsStmt ctx.site s'' st := by
    intro sequence s' at' move knownSequence
    refine Holds.pure at' (.simple rfl ?_ rfl rfl rfl)
    rw [Stmt.roots, List.forall_mem_cons, List.forall_mem_cons, List.forall_mem_singleton]
    exact ⟨L.kept_node knownSequence, move.kept (L.kept_node knownPlace),
      move.kept (L.kept_node known)⟩
  unfold assignElement
  refine Holds.get (Holds.walk_bind at_s (·.classesEnd.storeAtEnds ..) ?_)
  refine Holds.check_bind at_s (fun _ => storeAt_answers _ _ _ _) fun stored storedAt => ?_
  split
  · exact finish at_s (.refl s) knownSequence
  · have fine : ∀ t ∈ [place.type, value.type], L.Fine t := by
      simp only [List.mem_cons, List.not_mem_nil, or_false, forall_eq_or_imp, forall_eq]
      exact ⟨L.fine_node knownPlace, L.fine_node known⟩
    refine (refine_holds at_s knownSequence fine (.stored storedAt)).stmt.bind
      fun sequence s' at' move knownSequence => finish at' move knownSequence

/-- Translated expressions keep the law wherever they stand. -/
theorem expr_holds (infers : L.Infers n infer) {e : Tree.Expr} (sound : L.Faultless → e.faultless)
    (at_s : L.At n ctx.site s) :
    L.Holds n .expr ctx.site s (expr ⟨setting, infer⟩ e ctx) fun e s' => L.Node ctx.site s' e :=
  expr_evaluates infers e sound ctx s at_s

variable (infers : L.Infers n infer)

include infers

theorem assignTo_holds {target : Tree.Expr} {value : Expr}
    (binds : ∀ id, target.name? = some id → L.Binds ctx.site.key? id)
    (sound : L.Faultless → target.faultless) (at_s : L.At n ctx.site s)
    (known : L.Node ctx.site s value) :
    L.Holds n .stmt ctx.site s (assignTo ⟨setting, infer⟩ ctx target value)
      fun st s' => L.KeepsStmt ctx.site s' st := by
  obtain ⟨targetKind, pos⟩ := target
  unfold assignTo
  dsimp only
  split
  · exact assignName_holds infer (binds _ rfl) at_s known
  · next object attr =>
    have soundObject : L.Faultless → object.faultless := sound
    refine (expr_holds infers soundObject at_s).expr_bind fun object s' at' move knownObject => ?_
    exact assignAttribute_holds infer at' knownObject (move.node known)
  · obtain ⟨soundSequence, soundPlace⟩ := Tree.sound_and sound
    refine (expr_holds infers soundSequence at_s).expr_bind
      fun sequence s₁ at₁ move knownSequence => ?_
    refine (expr_holds infers soundPlace at₁).expr_bind fun place s₂ at₂ move' knownPlace => ?_
    exact assignElement_holds at₂ (move'.node knownSequence) knownPlace
      ((move.trans move').node known)
  · exact Holds.fail id
  · exact Holds.fail id
  · exact Holds.fail id
  · exact Holds.fail id

/-! ## Statements without blocks -/

theorem assignNode_holds {targets : List Tree.Expr} {value : Tree.Expr}
    (binds : ∀ x ∈ targets.filterMap Tree.Expr.name?, L.Binds ctx.site.key? x)
    (sound : L.Faultless → Tree.allFaultless targets && value.faultless)
    (at_s : L.At n ctx.site s) :
    L.Holds n .stmt ctx.site s (assignNode ⟨setting, infer⟩ ctx targets value)
      fun st s' => L.KeepsStmt ctx.site s' st := by
  unfold assignNode
  split
  · obtain ⟨soundTargets, soundValue⟩ := Tree.sound_and sound
    refine (expr_holds infers soundValue at_s).expr_bind fun value s' at' _ known => ?_
    refine assignTo_holds infers (fun id named => binds id ?_) (Tree.sound_and soundTargets).1 at' known
    exact List.mem_filterMap.mpr ⟨_, List.mem_singleton_self _, named⟩
  · exact Holds.fail id

theorem augAssignNode_holds {target value : Tree.Expr} {op : Tree.BinaryOperator}
    (binds : ∀ id, target.name? = some id → L.Binds ctx.site.key? id)
    (sound : L.Faultless → target.faultless && value.faultless)
    (at_s : L.At n ctx.site s) :
    L.Holds n .stmt ctx.site s (augAssignNode ⟨setting, infer⟩ ctx target op value)
      fun st s' => L.KeepsStmt ctx.site s' st := by
  obtain ⟨soundTarget, soundValue⟩ := Tree.sound_and sound
  unfold augAssignNode
  refine (expr_holds infers soundTarget at_s).expr_bind fun current s₁ at₁ _ knownCurrent => ?_
  refine (expr_holds infers soundValue at₁).expr_bind fun value s₂ at₂ move known => ?_
  refine Holds.check_bind at₂ (fun _ => binary_answers _ _ _ _) fun combined made => ?_
  refine assignTo_holds infers binds soundTarget at₂ (at₂.make ?_ (.binary made))
  simp only [List.mem_cons, List.not_mem_nil, or_false, forall_eq_or_imp, forall_eq]
  exact ⟨move.node knownCurrent, known⟩

theorem returnValue_holds {value : Option Tree.Expr}
    (sound : L.Faultless → Tree.optionFaultless value) (at_s : L.At n ctx.site s) :
    L.Holds n .expr ctx.site s (returnValue ⟨setting, infer⟩ ctx value)
      fun e s' => L.Node ctx.site s' e := by
  unfold returnValue
  split
  · exact expr_holds infers sound at_s
  · exact Holds.pure at_s (at_s.make (by simp) (.literal .null))

theorem returnNode_holds {value : Option Tree.Expr} (returns : L.Returns ctx.site.key?)
    (sound : L.Faultless → Tree.optionFaultless value) (at_s : L.At n ctx.site s) :
    L.Holds n .stmt ctx.site s (returnNode ⟨setting, infer⟩ ctx value)
      fun st s' => L.KeepsStmt ctx.site s' st := by
  unfold returnNode
  split
  · exact Holds.fail id
  next key cell definition =>
  have here : ctx.site.definition = some (key, cell) := definition
  have constructor_eq : ctx.isConstructor = key.isConstructor := by
    rw [Context.isConstructor, definition]
    rfl
  split
  · exact Holds.fail id
  next allowed =>
  -- a constructor has no value to return, any other definition merges the type of its value
  by_cases isConstructor : key.isConstructor
  · have noValue : value = none := by simpa [constructor_eq, isConstructor] using allowed
    rw [noValue, returnValue, constructor_eq, isConstructor]
    have known := at_s.make (by simp) (.literal .null)
    refine Holds.pure at_s (.ret (L.kept_node known) ?_)
    rw [here]
    exact L.leaves at_s.inv at_s.here here isConstructor
  · have mayReturn : L.Returns (some key) := by
      have key_eq : ctx.site.key? = some key := by rw [Site.key?, here]; rfl
      exact key_eq ▸ returns
    refine (returnValue_holds infers sound at_s).expr_bind fun node s' at' _ known => ?_
    rw [if_pos (by simp [constructor_eq, isConstructor])]
    refine Holds.get (Holds.check_bind at' (fun _ => mergeReturn_answers _ _ _) fun merged merges => ?_)
    obtain ⟨inv, rel, returned⟩ := L.merge at'.inv at'.here here mayReturn
      (by simpa using isConstructor) known merges
    have set : L.Holds n .stmt ctx.site s'
        (setSignature cell { s'.cells.get cell with ret := merged })
        fun _ s'' => L.Returned (some (key, cell)) s'' node :=
      Holds.modify at' inv ⟨rel, ⟨.refl _, rfl⟩⟩ returned
    refine set.bind fun _ s'' at'' move returned => ?_
    refine Holds.pure at'' (.ret (move.kept (L.kept_node known)) ?_)
    rw [here]
    exact returned

omit infers in
theorem jumpNode_holds {what : String} {jump : Stmt} (keeps : L.KeepsStmt ctx.site s jump)
    (at_s : L.At n ctx.site s) :
    L.Holds n .stmt ctx.site s (jumpNode ctx what jump)
      fun st s' => L.KeepsStmt ctx.site s' st := by
  unfold jumpNode
  split
  · exact Holds.pure at_s keeps
  · exact Holds.fail id

theorem testOf_holds {test : Tree.Expr} (sound : L.Faultless → test.faultless)
    (at_s : L.At n ctx.site s) :
    L.Holds n .expr ctx.site s (testOf ⟨setting, infer⟩ ctx test)
      fun e s' => Condition L ctx.site s' e := by
  unfold testOf
  refine (expr_holds infers sound at_s).bind fun node s' at' _ known => ?_
  exact Holds.check at' (fun _ => testable_answers _) fun e made => at'.condition known made

theorem raiseNode_holds {exc : Tree.Expr} (sound : L.Faultless → exc.faultless)
    (at_s : L.At n ctx.site s) :
    L.Holds n .stmt ctx.site s (raiseNode ⟨setting, infer⟩ ctx exc)
      fun st s' => L.KeepsStmt ctx.site s' st := by
  obtain ⟨kind, pos⟩ := exc
  unfold raiseNode
  dsimp only
  split
  · obtain ⟨-, soundArgs⟩ := Tree.sound_and sound
    split
    · refine Holds.get ?_
      split
      · exact Holds.failAt id
      split
      · have holds := expr_holds infers (Tree.sound_and soundArgs).1 at_s
        refine holds.expr_bind fun value s' at' _ known => ?_
        split
        · refine Holds.pure at' (.simple rfl ?_ rfl rfl rfl)
          simpa [Stmt.roots] using L.kept_node known
        · exact Holds.failAt id
      · exact Holds.fail id
    · exact Holds.fail id
  · exact Holds.fail id

/-! ## File blocks -/

theorem withNode_holds {items : List Tree.WithItem} {body : List Tree.Stmt}
    (binds : ∀ x ∈ Tree.blockNames body, L.Binds ctx.site.key? x)
    (sound : L.Faultless → items.all (·.context.faultless) && Tree.blockFaultless body)
    (at_s : L.At n ctx.site s) :
    L.Holds n .stmt ctx.site s (withNode ⟨setting, infer⟩ ctx items body)
      fun st s' => L.KeepsStmt ctx.site s' st := by
  obtain ⟨soundItems, soundBody⟩ := Tree.sound_and sound
  unfold withNode
  dsimp only
  split
  · exact Holds.failAt id
  · exact Holds.fail id
  · next path target pos parts =>
    obtain ⟨_, path, _, _, _, _, rfl, ⟨_, _, _, rfl, same⟩ | ⟨_, _, _, _, _, same⟩⟩ :=
      ofParts?_cases parts
    · cases same
      -- the path is an argument of the call that opens the file, the target stands in the block
      have soundPath := (Tree.sound_and (Tree.sound_and (Tree.sound_and soundItems).1).2).1
      have soundTarget := (Tree.sound_and (Tree.sound_and (Tree.sound_and soundBody).1).1).1
      refine (expr_holds infers soundPath at_s).expr_bind fun path s₁ at₁ _ known => ?_
      refine (expand_holds (.builtin (by decide)) at₁ (by simpa using known)).expr_bind
        fun text s₂ at₂ _ known => ?_
      refine Holds.located (assignTo_holds infers (fun id named => ?_) soundTarget at₂ known)
      refine binds id ?_
      simp [Tree.blockNames, Tree.Stmt.names, Tree.StmtKind.names, named]
    · cases same
  · next path text pos parts =>
    obtain ⟨_, path, _, _, _, _, rfl, ⟨_, _, _, _, same⟩ | ⟨_, _, _, _, rfl, same⟩⟩ :=
      ofParts?_cases parts
    · cases same
    · cases same
      have soundPath := (Tree.sound_and (Tree.sound_and (Tree.sound_and soundItems).1).2).1
      have soundText := (Tree.sound_and (Tree.sound_and (Tree.sound_and soundBody).1).2).1
      refine (expr_holds infers soundPath at_s).expr_bind fun path s₁ at₁ _ knownPath => ?_
      refine (expr_holds infers soundText at₁).expr_bind fun text s₂ at₂ move knownText => ?_
      have known : ∀ e ∈ [path, text], L.Node ctx.site s₂ e := by
        simp only [List.mem_cons, List.not_mem_nil, or_false, forall_eq_or_imp, forall_eq]
        exact ⟨move.node knownPath, knownText⟩
      refine (Holds.located (expand_holds (.builtin (by decide)) at₂ known)).expr_bind
        fun e s₃ at₃ _ known => ?_
      refine Holds.pure at₃ (.simple rfl ?_ rfl rfl rfl)
      simpa [Stmt.roots] using L.kept_node known

/-! ## Handlers -/

omit infers in
theorem nextException_holds {pos : Pos} {type : Option Tree.Expr} {caught : List String}
    (at_s : L.At n ctx.site s) :
    L.Holds n .stmt ctx.site s (nextException pos type caught)
      fun exception s' => s' = s ∧ s.hierarchy.isException exception := by
  have handled : L.Holds n .stmt ctx.site s (handledException s.hierarchy type)
      fun exception s' => s' = s ∧ s.hierarchy.isException exception := by
    unfold handledException
    split
    · exact Holds.pure at_s ⟨rfl, by simp [Hierarchy.isException]⟩
    · split
      · split
        · next isException => exact Holds.pure at_s ⟨rfl, isException⟩
        · exact Holds.failAt id
      · exact Holds.failAt id
  unfold nextException
  refine Holds.get (handled.bind ?_)
  rintro exception s' at' _ ⟨rfl, isException⟩
  refine Holds.walk_bind at' (·.caughtEnds ..) ?_
  split
  · exact Holds.failAt id
  · exact Holds.pure at' ⟨rfl, isException⟩

/-! ## Blocks -/

omit infers

mutual

theorem stmt_holds (infers : L.Infers n infer) : ∀ (st : Tree.Stmt) (ctx : Context) (s : State),
    L.Admits ctx.site.key? st.names st.returns st.faultless → L.At n ctx.site s →
    L.Holds n .stmt ctx.site s (stmt ⟨setting, infer⟩ st ctx)
      fun o s' => ∀ st ∈ o, L.KeepsStmt ctx.site s' st
  | ⟨kind, pos⟩, ctx, s, admits, at_s => by
    simp only [stmt]
    exact Holds.located (stmtKind_holds infers kind ctx s admits at_s)

theorem stmtKind_holds (infers : L.Infers n infer) :
    ∀ (kind : Tree.StmtKind) (ctx : Context) (s : State),
    L.Admits ctx.site.key? kind.names kind.returns kind.faultless → L.At n ctx.site s →
    L.Holds n .stmt ctx.site s (stmtKind ⟨setting, infer⟩ kind ctx)
      fun o s' => ∀ st ∈ o, L.KeepsStmt ctx.site s' st
  | .expr value, ctx, s, admits, at_s => by
    simp only [stmtKind]
    have holds := expr_holds infers admits.faultless at_s
    refine holds.expr_bind fun node s' at' _ known => Holds.pure at' ?_
    rintro _ ⟨⟩
    exact .simple rfl (by simpa [Stmt.roots] using L.kept_node known) rfl rfl rfl
  | .assign targets value, ctx, s, admits, at_s => by
    simp only [stmtKind]
    have holds := assignNode_holds infers admits.binds admits.faultless at_s
    exact Holds.map (holds.imp fun st _ _ _ keeps => by simpa)
  | .augAssign target op value, ctx, s, admits, at_s => by
    simp only [stmtKind]
    refine Holds.map ((augAssignNode_holds infers (fun id named => admits.binds id ?_)
      admits.faultless at_s).imp fun st _ _ _ keeps => by simpa)
    simp [Tree.StmtKind.names, named]
  | .ret value, ctx, s, admits, at_s => by
    simp only [stmtKind]
    have holds := returnNode_holds infers (admits.returns rfl) admits.faultless at_s
    exact Holds.map (holds.imp fun st _ _ _ keeps => by simpa)
  | .ifElse test body orelse, ctx, s, admits, at_s => by
    simp only [stmtKind]
    obtain ⟨soundTest, sound⟩ := Tree.sound_and admits.faultless
    obtain ⟨admitsBody, admitsRest⟩ := Admits.and.mp ⟨admits.binds, admits.returns, sound⟩
    refine (testOf_holds infers soundTest at_s).expr_bind fun test s₁ at₁ _ condition => ?_
    refine (block_holds infers body ctx s₁ admitsBody at₁).bind fun inside s₂ at₂ move keeps => ?_
    refine (otherwise_holds infers orelse (block_holds infers orelse) ctx s₂ admitsRest at₂).bind
      fun after s₃ at₃ move' keepsRest => Holds.pure at₃ ?_
    rintro _ ⟨⟩
    exact .ifElse ((move.trans move').kept (L.kept_node condition.node)) condition.type
      (move'.keepsBlock keeps) keepsRest
  | .whileLoop test body [], ctx, s, admits, at_s => by
    simp only [stmtKind]
    obtain ⟨soundTest, soundBody⟩ := Tree.sound_and admits.faultless
    have admitsBody : L.Admits ctx.site.key? _ _ _ :=
      ⟨(List.forall_mem_append.mp admits.binds).1, admits.returns, soundBody⟩
    refine (testOf_holds infers soundTest at_s).expr_bind fun test s₁ at₁ _ condition => ?_
    refine (block_holds infers body ctx.looping s₁ admitsBody at₁).bind
      fun inside s₂ at₂ move keeps => Holds.pure at₂ ?_
    rintro _ ⟨⟩
    exact .whileLoop (Moves.kept move (L.kept_node condition.node)) condition.type keeps
  | .whileLoop _ _ (_ :: _), _, _, _, _ => Holds.fail id
  | .forLoop target iter body [], ctx, s, admits, at_s => by
    simp only [stmtKind]
    obtain ⟨soundIter, soundBody⟩ := Tree.sound_and admits.faultless
    have admitsBody : L.Admits ctx.site.key? _ _ _ :=
      ⟨(List.forall_mem_append.mp admits.binds).1, admits.returns, soundBody⟩
    refine (loopHead_holds infer (expr_evaluates infers iter soundIter)
      (iterated_evaluates infers iter soundIter) at_s).expr_bind ?_
    rintro head s₁ at₁ _ ⟨known, new⟩
    obtain ⟨names, fine⟩ := known.bindings_new new
    -- what the body keeps under the loop variables is kept when their scope is closed
    have looped : L.Holds n .stmt ctx.site s₁
        (inScope ctx.scope (bindings head.binders) fun scope =>
          block ⟨setting, infer⟩ body (ctx.inScope scope).looping)
        fun block s' => L.KeepsBlock ctx.site s' block :=
      Holds.inScope at₁ (fun b hb => .inr (names b hb)) fine (fun at₂ =>
        block_holds infers body (ctx.inScope s₁.scopes.size).looping _ admitsBody at₂)
        fun block s₂ move keeps => by
          have closed : L.KeepsHandler ctx.site (s₂.closed s₁.scopes.size) [] block :=
            KeepsBlock.closed at₁.here (fun b hb => .inr (names b hb)) move keeps
          simpa only [Law.KeepsHandler, List.append_nil] using closed
    refine looped.bind fun inside s₂ at₂ move keeps => Holds.pure at₂ ?_
    rintro _ ⟨⟩
    exact .loop (fun e he => move.kept (L.kept_node (known.nodes e he))) known.fine keeps
  | .forLoop _ _ _ (_ :: _), _, _, _, _ => Holds.fail id
  | .tryExcept body cases [] [], ctx, s, admits, at_s => by
    simp only [stmtKind]
    have binds : ∀ x ∈ Tree.blockNames body ++ Tree.handlerNames cases, L.Binds ctx.site.key? x :=
      fun x hx => admits.binds x (by simpa [Tree.StmtKind.names, Tree.blockNames] using hx)
    obtain ⟨admitsBody, admitsCases⟩ := Admits.and.mp ⟨binds, admits.returns, admits.faultless⟩
    refine (block_holds infers body (ctx.last false) s admitsBody at_s).bind
      fun inside s₁ at₁ _ keeps => ?_
    refine (handlers_hold infers cases [] (ctx.last false) s₁ admitsCases at₁).bind
      fun others s₂ at₂ move keepsOthers => Holds.pure at₂ ?_
    rintro _ ⟨⟩
    exact .tryExcept (Moves.keepsBlock move keeps) keepsOthers
  | .tryExcept _ _ (_ :: _) _, _, _, _, _ => Holds.fail id
  | .tryExcept _ _ [] (_ :: _), _, _, _, _ => Holds.fail id
  | .raise none (some _), _, _, _, _ => Holds.fail id
  | .raise (some _) (some _), _, _, _, _ => Holds.fail id
  | .raise none none, _, _, _, _ => Holds.fail id
  | .raise (some exc) none, ctx, s, admits, at_s => by
    simp only [stmtKind]
    exact Holds.map ((raiseNode_holds infers admits.faultless at_s).imp fun st _ _ _ keeps => by simpa)
  | .withItems items body, ctx, s, admits, at_s => by
    simp only [stmtKind]
    have holds := withNode_holds infers admits.binds admits.faultless at_s
    exact Holds.map (holds.imp fun st _ _ _ keeps => by simpa)
  | .breakLoop, ctx, s, _, at_s => by
    simp only [stmtKind]
    exact Holds.map ((jumpNode_holds (.simple rfl (by simp [Stmt.roots]) rfl rfl rfl) at_s).imp
      fun st _ _ _ keeps => by simpa)
  | .continueLoop, ctx, s, _, at_s => by
    simp only [stmtKind]
    exact Holds.map ((jumpNode_holds (.simple rfl (by simp [Stmt.roots]) rfl rfl rfl) at_s).imp
      fun st _ _ _ keeps => by simpa)
  | .pass, _, _, _, at_s => Holds.pure at_s (by simp)
  | .functionDef _, _, _, _, _ => Holds.fail id
  | .classDef _, _, _, _, _ => Holds.fail id
  | .importNames _, _, _, _, _ => Holds.fail id
  | .importFrom .., _, _, _, _ => Holds.fail id
  | .globalNames _, _, _, _, _ => Holds.fail id
  | .nonlocalNames _, _, _, _, _ => Holds.fail id
  | .delete _, _, _, _, _ => Holds.fail id

theorem otherwise_holds (infers : L.Infers n infer) :
    ∀ (orelse : List Tree.Stmt) {whole : Context → Run (List Stmt)},
    (∀ (ctx : Context) (s : State), L.AdmitsBlock ctx.site.key? orelse →
      L.At n ctx.site s → L.Holds n .stmt ctx.site s (whole ctx)
        fun block s' => L.KeepsBlock ctx.site s' block) →
    ∀ (ctx : Context) (s : State), L.AdmitsBlock ctx.site.key? orelse → L.At n ctx.site s →
    L.Holds n .stmt ctx.site s (otherwise ⟨setting, infer⟩ whole orelse ctx)
      fun o s' => L.KeepsOtherwise ctx.site s' o
  | [], _, _, _, _, _, at_s => Holds.pure at_s .nothing
  | [⟨kind, pos⟩], whole, keepsWhole, ctx, s, admits, at_s => by
    cases kind with
    | ifElse test body orelse =>
      simp only [otherwise]
      have first := (Admits.and.mp admits).1
      obtain ⟨soundTest, sound⟩ := Tree.sound_and first.faultless
      obtain ⟨admitsBody, admitsRest⟩ := Admits.and.mp ⟨first.binds, first.returns, sound⟩
      refine Holds.located ?_
      refine (testOf_holds infers soundTest at_s).expr_bind fun test s₁ at₁ _ condition => ?_
      refine (block_holds infers body ctx s₁ admitsBody at₁).bind
        fun inside s₂ at₂ move keeps => ?_
      refine (otherwise_holds infers orelse (block_holds infers orelse) ctx s₂ admitsRest at₂).bind
        fun after s₃ at₃ move' keepsRest => Holds.pure at₃ ?_
      exact .elseIf ((move.trans move').kept (L.kept_node condition.node)) condition.type
        (move'.keepsBlock keeps) keepsRest
    | _ =>
      simp only [otherwise]
      exact Holds.map ((keepsWhole ctx s admits at_s).imp fun _ _ _ _ keeps => .block keeps)
  | _ :: _ :: _, whole, keepsWhole, ctx, s, admits, at_s => by
    simp only [otherwise]
    exact Holds.map ((keepsWhole ctx s admits at_s).imp fun _ _ _ _ keeps => .block keeps)

theorem block_holds (infers : L.Infers n infer) :
    ∀ (body : List Tree.Stmt) (ctx : Context) (s : State),
    L.AdmitsBlock ctx.site.key? body → L.At n ctx.site s →
    L.Holds n .stmt ctx.site s (block ⟨setting, infer⟩ body ctx)
      fun block s' => L.KeepsBlock ctx.site s' block
  | [], _, _, _, at_s => Holds.pure at_s .nil
  | st :: rest, ctx, s, admits, at_s => by
    simp only [block]
    obtain ⟨admitsFirst, admitsRest⟩ := Admits.and.mp admits
    refine (stmt_holds infers st (ctx.last (ctx.isLast && rest.isEmpty)) s admitsFirst at_s).bind
      fun node s₁ at₁ _ keeps => ?_
    refine (block_holds infers rest ctx s₁ admitsRest at₁).bind
      fun nodes s₂ at₂ move keepsRest => Holds.pure at₂ ?_
    exact .append (.ofOption fun st hst => move.keepsStmt (keeps st hst)) keepsRest

theorem handlers_hold (infers : L.Infers n infer) :
    ∀ (cases : List Tree.ExceptHandler) (caught : List String) (ctx : Context) (s : State),
    L.Admits ctx.site.key? (Tree.handlerNames cases) (Tree.handlersReturn cases)
      (Tree.handlersFaultless cases) → L.At n ctx.site s →
    L.Holds n .stmt ctx.site s (handlers ⟨setting, infer⟩ cases caught ctx)
      fun hs s' => L.KeepHandlers ctx.site s' hs
  | [], _, _, _, _, at_s => Holds.pure at_s .nil
  | ⟨type, name, body, pos⟩ :: rest, caught, ctx, s, admits, at_s => by
    simp only [handlers]
    have binds : ∀ x ∈ name.toList ++ Tree.blockNames body ++ Tree.handlerNames rest,
      L.Binds ctx.site.key? x := admits.binds
    obtain ⟨admitsHandler, admitsRest⟩ := Admits.and.mp ⟨binds, admits.returns, admits.faultless⟩
    obtain ⟨bindsName, bindsBody⟩ := List.forall_mem_append.mp admitsHandler.binds
    have admitsBody : L.AdmitsBlock ctx.site.key? body :=
      ⟨bindsBody, admitsHandler.returns, admitsHandler.faultless⟩
    refine (nextException_holds at_s).bind ?_
    rintro exception s' at_s _ ⟨same, isException⟩
    obtain rfl : s' = s := same
    -- the caught name is bound in the scope of its handler only
    have handled : L.Holds n .stmt ctx.site s'
        (located pos <| inScope ctx.scope (handlerBindings exception name) fun scope =>
          block ⟨setting, infer⟩ body (ctx.inScope scope))
        fun block s' => L.KeepsHandler ctx.site s' name.toList block := by
      refine Holds.located (Holds.inScope at_s ?_ ?_ (fun at₂ =>
        block_holds infers body (ctx.inScope s'.scopes.size) _ admitsBody at₂)
        fun block s₂ move keeps => KeepsBlock.closed at_s.here (fun b hb => .inl ?_) move keeps)
      · intro b hb
        obtain ⟨x, hx, rfl⟩ := List.mem_map.mp hb
        exact .inl (bindsName x hx)
      · intro b hb
        obtain ⟨x, hx, rfl⟩ := List.mem_map.mp hb
        exact L.fine_exception at_s.inv isException
      · obtain ⟨x, hx, rfl⟩ := List.mem_map.mp hb
        exact hx
    refine handled.bind fun block s₂ at₂ _ keeps => ?_
    refine (handlers_hold infers rest (caught ++ [exception]) ctx s₂ admitsRest at₂).bind
      fun others s₃ at₃ move keepsRest => Holds.pure at₃ ?_
    exact .cons (keeps.imp (fun _ _ => move.kept) fun _ => move.returned) keepsRest

end

end Law

end TreeTyper.Translate
