import TreeTyper.Proofs.Skeleton

/-!
# Flow of control

The flow of a block is its jumps and returns with the blocks they stand in.  In the
syntax a return is marked by where it stands: the last statement of a block in tail
position is in tail position, and so are the last statements of all branches of a
conditional in tail position; nothing inside a loop or a `try` is.  In the typed
tree it is marked by its form.

    (block t body ctx).run s = (.ok nodes, s') →
      blockFlow nodes = Tree.blockFlow ctx.isLast body        (Translate.block_flow)
-/

namespace TreeTyper

/-- A statement by the jumps and returns in it. -/
inductive Flow where
  | plain
  /-- A jump out of a round of a loop. -/
  | jump
  /-- A return, which is in tail position or not. -/
  | ret (isTail : Bool)
  | branch (body orelse : List Flow)
  | loop (body : List Flow)
  | attempt (body handlers : List Flow)
  /-- A handler of an attempt. -/
  | handler (body : List Flow)
  deriving Repr

mutual

/-- Whether all jumps are in loops and all returns in a definition; `inBody` and `inLoop` tell where
the statement itself stands. -/
def Flow.isPlaced (inBody inLoop : Bool) : Flow → Bool
  | .plain => true
  | .jump => inLoop
  | .ret _ => inBody
  | .branch body orelse => allPlaced inBody inLoop body && allPlaced inBody inLoop orelse
  | .loop body => allPlaced inBody true body
  | .attempt body handlers => allPlaced inBody inLoop body && allPlaced inBody inLoop handlers
  | .handler body => allPlaced inBody inLoop body

def allPlaced (inBody inLoop : Bool) : List Flow → Bool
  | [] => true
  | f :: rest => f.isPlaced inBody inLoop && allPlaced inBody inLoop rest

end

def Flow.isTailReturn : Flow → Bool
  | .ret isTail => isTail
  | _ => false

mutual

/-- Whether no return in tail position is followed by anything, in all blocks of a statement. -/
def Flow.endsInTails : Flow → Bool
  | .branch body orelse => tailsLast body && tailsLast orelse
  | .loop body => tailsLast body
  | .attempt body handlers => tailsLast body && tailsLast handlers
  | .handler body => tailsLast body
  | _ => true

/-- Whether no return in tail position is followed by anything, in a block and all blocks in it. -/
def tailsLast : List Flow → Bool
  | [] => true
  | f :: rest => f.endsInTails && (!f.isTailReturn || rest.isEmpty) && tailsLast rest

end

theorem allPlaced_append (inBody inLoop : Bool) (first second : List Flow) :
    allPlaced inBody inLoop (first ++ second) =
      (allPlaced inBody inLoop first && allPlaced inBody inLoop second) := by
  induction first with
  | nil => rfl
  | cons f rest ih => simp [allPlaced, ih, Bool.and_assoc]

/-! ## In the syntax -/

namespace Tree

mutual

/-- The flow of a statement, which is in tail position or not. -/
def Stmt.flow (isTail : Bool) : Stmt → List Flow
  | ⟨kind, _⟩ => kind.flow isTail

def StmtKind.flow (isTail : Bool) : StmtKind → List Flow
  | .ret _ => [.ret isTail]
  | .ifElse _ body orelse => [.branch (blockFlow isTail body) (blockFlow isTail orelse)]
  | .whileLoop _ body orelse => .loop (blockFlow false body) :: blockFlow false orelse
  | .forLoop _ _ body orelse => .loop (blockFlow false body) :: blockFlow false orelse
  | .tryExcept body handlers orelse finalbody =>
    .attempt (blockFlow false body) (handlersFlow handlers) ::
      (blockFlow false orelse ++ blockFlow false finalbody)
  | .withItems _ body => blockFlow false body
  | .breakLoop | .continueLoop => [.jump]
  | .pass => []
  | .functionDef _ | .classDef _ | .assign .. | .augAssign .. | .expr _ | .raise ..
  | .importNames _ | .importFrom .. | .globalNames _ | .nonlocalNames _ | .delete _ => [.plain]

/-- The flow of a block: only its last statement can be in tail position. -/
def blockFlow (isTail : Bool) : List Stmt → List Flow
  | [] => []
  | s :: rest => s.flow (isTail && rest.isEmpty) ++ blockFlow isTail rest

/-- The flow of some handlers, which are never in tail position. -/
def handlersFlow : List ExceptHandler → List Flow
  | [] => []
  | ⟨_, _, body, _⟩ :: rest => .handler (blockFlow false body) :: handlersFlow rest

end

end Tree

theorem tailsLast_append {first second : List Flow} (ends : tailsLast first)
    (ends' : tailsLast second) (apart : second = [] ∨ ∀ f ∈ first, f.isTailReturn = false) :
    tailsLast (first ++ second) := by
  induction first with
  | nil => exact ends'
  | cons f rest ih =>
    rw [List.cons_append, tailsLast, Bool.and_eq_true, Bool.and_eq_true] at *
    obtain ⟨⟨inside, last⟩, others⟩ := ends
    rcases apart with rfl | apart
    · rw [List.append_nil]
      exact ⟨⟨inside, last⟩, others⟩
    · refine ⟨⟨inside, ?_⟩, ih others (.inr fun g hg => apart g (List.mem_cons_of_mem _ hg))⟩
      rw [apart f List.mem_cons_self]
      rfl

namespace Tree

mutual

theorem Stmt.isTailReturn_flow : ∀ s : Stmt, ∀ f ∈ s.flow false, f.isTailReturn = false
  | ⟨kind, _⟩ => kind.isTailReturn_flow

theorem StmtKind.isTailReturn_flow :
    ∀ kind : StmtKind, ∀ f ∈ kind.flow false, f.isTailReturn = false
  | .whileLoop _ body orelse => by
    rw [StmtKind.flow, List.forall_mem_cons]
    exact ⟨rfl, isTailReturn_blockFlow orelse⟩
  | .forLoop _ _ body orelse => by
    rw [StmtKind.flow, List.forall_mem_cons]
    exact ⟨rfl, isTailReturn_blockFlow orelse⟩
  | .tryExcept body handlers orelse finalbody => by
    rw [StmtKind.flow, List.forall_mem_cons, List.forall_mem_append]
    exact ⟨rfl, isTailReturn_blockFlow orelse, isTailReturn_blockFlow finalbody⟩
  | .withItems _ body => isTailReturn_blockFlow body
  | .pass => by simp [StmtKind.flow]
  | .ret _ | .ifElse .. | .breakLoop | .continueLoop | .functionDef _ | .classDef _ | .assign ..
  | .augAssign .. | .expr _ | .raise .. | .importNames _ | .importFrom .. | .globalNames _
  | .nonlocalNames _ | .delete _ => by simp [StmtKind.flow, Flow.isTailReturn]

theorem isTailReturn_blockFlow :
    ∀ body : List Stmt, ∀ f ∈ blockFlow false body, f.isTailReturn = false
  | [] => by simp [blockFlow]
  | s :: rest => by
    rw [blockFlow, List.forall_mem_append]
    exact ⟨s.isTailReturn_flow, isTailReturn_blockFlow rest⟩

end

mutual

theorem Stmt.tailsLast_flow (isTail : Bool) : ∀ s : Stmt, tailsLast (s.flow isTail)
  | ⟨kind, _⟩ => kind.tailsLast_flow isTail

theorem StmtKind.tailsLast_flow (isTail : Bool) : ∀ kind : StmtKind, tailsLast (kind.flow isTail)
  | .ifElse _ body orelse => by
    simp [StmtKind.flow, tailsLast, Flow.endsInTails, tailsLast_blockFlow isTail body,
      tailsLast_blockFlow isTail orelse]
  | .whileLoop _ body orelse => by
    simp [StmtKind.flow, tailsLast, Flow.endsInTails, Flow.isTailReturn,
      tailsLast_blockFlow false body, tailsLast_blockFlow false orelse]
  | .forLoop _ _ body orelse => by
    simp [StmtKind.flow, tailsLast, Flow.endsInTails, Flow.isTailReturn,
      tailsLast_blockFlow false body, tailsLast_blockFlow false orelse]
  | .tryExcept body handlers orelse finalbody => by
    have after := tailsLast_append (tailsLast_blockFlow false orelse)
      (tailsLast_blockFlow false finalbody) (.inr (isTailReturn_blockFlow orelse))
    simp [StmtKind.flow, tailsLast, Flow.endsInTails, Flow.isTailReturn,
      tailsLast_blockFlow false body, tailsLast_handlersFlow handlers, after]
  | .withItems _ body => tailsLast_blockFlow false body
  | .ret _ | .pass | .breakLoop | .continueLoop | .functionDef _ | .classDef _ | .assign ..
  | .augAssign .. | .expr _ | .raise .. | .importNames _ | .importFrom .. | .globalNames _
  | .nonlocalNames _ | .delete _ => by simp [StmtKind.flow, tailsLast, Flow.endsInTails]

/-- In a block a return in tail position is the last statement. -/
theorem tailsLast_blockFlow (isTail : Bool) : ∀ body : List Stmt, tailsLast (blockFlow isTail body)
  | [] => rfl
  | s :: rest => by
    refine tailsLast_append (s.tailsLast_flow _) (tailsLast_blockFlow isTail rest) ?_
    cases rest with
    | nil => exact .inl rfl
    | cons next others =>
      rw [List.isEmpty_cons, Bool.and_false]
      exact .inr s.isTailReturn_flow

theorem tailsLast_handlersFlow : ∀ handlers : List ExceptHandler, tailsLast (handlersFlow handlers)
  | [] => rfl
  | ⟨_, _, body, _⟩ :: rest => by
    simp [handlersFlow, tailsLast, Flow.endsInTails, Flow.isTailReturn,
      tailsLast_blockFlow false body, tailsLast_handlersFlow rest]

end

end Tree

/-! ## In the typed tree -/

namespace Typed

mutual

def Stmt.flow : Stmt → Flow
  | .ret isImplicit _ => .ret isImplicit
  | .ifElse _ block otherwise => .branch (blockFlow block) otherwise.flow
  | .whileLoop _ block => .loop (blockFlow block)
  | .forEach _ _ block => .loop (blockFlow block)
  | .forRange _ _ _ _ block => .loop (blockFlow block)
  | .tryExcept block handlers => .attempt (blockFlow block) (handlersFlow handlers)
  | .breakLoop | .continueLoop => .jump
  | .expr _ | .localAssignment .. | .instanceAssignment .. | .attrAssignment ..
  | .indexAssignment .. | .throw .. => .plain

/-- An `elif` is a conditional that stands alone in the block after the first one. -/
def Otherwise.flow : Otherwise → List Flow
  | .nothing => []
  | .elseIf _ block otherwise => [.branch (blockFlow block) otherwise.flow]
  | .block block => blockFlow block

def blockFlow : List Stmt → List Flow
  | [] => []
  | s :: rest => s.flow :: blockFlow rest

def handlersFlow : List Handler → List Flow
  | [] => []
  | ⟨_, _, block⟩ :: rest => .handler (blockFlow block) :: handlersFlow rest

end

theorem blockFlow_append (first second : List Stmt) :
    blockFlow (first ++ second) = blockFlow first ++ blockFlow second := by
  induction first with
  | nil => rfl
  | cons s rest ih => simp [blockFlow, ih]

/-- An assignment is no jump and no return. -/
theorem Stmt.flow_of_store {s : Stmt} {place : Place} (same : s.skeleton = .store place) :
    s.flow = .plain := by
  cases s <;> first | rfl | cases same

theorem Stmt.flow_of_throw {s : Stmt} (same : s.skeleton = .throw) : s.flow = .plain := by
  cases s <;> first | rfl | cases same

end Typed

namespace Translate

open Typed

/-- The flow of something typed is what is written, and stands where it may at a context. -/
structure Flows (ctx : Context) (written found : List Flow) : Prop where
  same : found = written
  placed : allPlaced ctx.definition.isSome ctx.inLoop found

variable {t : Translator} {ctx : Context}

namespace Flows

theorem nil (ctx : Context) : Flows ctx [] [] := ⟨rfl, rfl⟩

theorem append {written written' found found' : List Flow} (first : Flows ctx written found)
    (second : Flows ctx written' found') : Flows ctx (written ++ written') (found ++ found') := by
  refine ⟨by rw [first.same, second.same], ?_⟩
  rw [allPlaced_append, first.placed, second.placed]
  rfl

theorem one {f : Flow} (placed : f.isPlaced ctx.definition.isSome ctx.inLoop) :
    Flows ctx [f] [f] := by
  refine ⟨rfl, ?_⟩
  rw [allPlaced, placed]
  rfl

theorem plain {st : Stmt} (isPlain : st.flow = .plain) : Flows ctx [.plain] [st.flow] := by
  rw [isPlain]
  exact .one rfl

theorem branch {body orelse block otherwise : List Flow} (inside : Flows ctx body block)
    (after : Flows ctx orelse otherwise) :
    Flows ctx [.branch body orelse] [.branch block otherwise] := by
  obtain ⟨rfl, placed⟩ := inside
  obtain ⟨rfl, placed'⟩ := after
  exact .one (by rw [Flow.isPlaced, placed, placed']; rfl)

theorem loop {inner : Context} {body block : List Flow} (inside : Flows inner body block)
    (definition : inner.definition = ctx.definition) (looping : inner.inLoop) :
    Flows ctx [.loop body] [.loop block] := by
  obtain ⟨rfl, placed⟩ := inside
  rw [definition, looping] at placed
  exact .one placed

theorem attempt {body handlers block others : List Flow} (inside : Flows ctx body block)
    (after : Flows ctx handlers others) :
    Flows ctx [.attempt body handlers] [.attempt block others] := by
  obtain ⟨rfl, placed⟩ := inside
  obtain ⟨rfl, placed'⟩ := after
  exact .one (by rw [Flow.isPlaced, placed, placed']; rfl)

theorem handler {body block handlers others : List Flow} (inside : Flows ctx body block)
    (after : Flows ctx handlers others) :
    Flows ctx (.handler body :: handlers) (.handler block :: others) := by
  obtain ⟨rfl, placed⟩ := inside
  have first : Flows ctx [.handler block] [.handler block] := .one placed
  exact first.append after

end Flows

/-! ## Statements without blocks -/

theorem assignTo_flow (target : Tree.Expr) (value : Expr) :
    Gives (assignTo t ctx target value) fun st => Flows ctx [.plain] [st.flow] :=
  (assignTo_skeleton target value).imp fun _ same => .plain (Stmt.flow_of_store same)

theorem assignNode_flow (targets : List Tree.Expr) (value : Tree.Expr) :
    Gives (assignNode t ctx targets value) fun st => Flows ctx [.plain] [st.flow] := by
  unfold assignNode
  split
  · exact .skip fun value => assignTo_flow _ value
  · exact .fail

theorem augAssignNode_flow (target : Tree.Expr) (op : Tree.BinaryOperator) (value : Tree.Expr) :
    Gives (augAssignNode t ctx target op value) fun st => Flows ctx [.plain] [st.flow] :=
  (augAssignNode_skeleton target op value).imp fun _ same => .plain (Stmt.flow_of_store same)

/-- A return has the form of its place, and stands in a definition. -/
theorem returnNode_flow (value : Option Tree.Expr) :
    Gives (returnNode t ctx value) fun st => Flows ctx [.ret ctx.isLast] [st.flow] := by
  unfold returnNode
  split
  · exact .fail
  next key cell inside =>
  have placed : ∀ node, Flows ctx [.ret ctx.isLast] [(Stmt.ret ctx.isLast node).flow] := fun _ =>
    .one (by rw [inside]; rfl)
  split
  · exact .fail
  refine .skip fun node => ?_
  split
  · exact .skip fun current => .skip fun merged => .skip fun _ => .pure (placed node)
  · exact .pure (placed node)

theorem jumpNode_flow (what : String) {jump : Stmt} (isJump : jump.flow = .jump) :
    Gives (jumpNode ctx what jump) fun st => Flows ctx [.jump] [st.flow] := by
  unfold jumpNode
  split
  · next inLoop =>
    refine .pure ?_
    rw [isJump]
    exact .one inLoop
  · exact .fail

theorem raiseNode_flow (exc : Tree.Expr) :
    Gives (raiseNode t ctx exc) fun st => Flows ctx [.plain] [st.flow] :=
  (raiseNode_skeleton exc).imp fun _ same => .plain (Stmt.flow_of_throw same)

theorem withNode_flow (items : List Tree.WithItem) (body : List Tree.Stmt) :
    Gives (withNode t ctx items body) fun st => Flows ctx (Tree.blockFlow false body) [st.flow] := by
  unfold withNode
  split
  · exact .failAt
  · exact .fail
  · next path target pos parts =>
    obtain ⟨_, _, _, _, _, _, -, ⟨_, _, _, rfl, -⟩ | ⟨_, _, _, _, _, read⟩⟩ :=
      ofParts?_cases parts
    · exact .skip fun path => .skip fun text => .located (assignTo_flow target text)
    · cases read
  · next path text pos parts =>
    obtain ⟨_, _, _, _, _, _, -, ⟨_, _, _, _, written⟩ | ⟨_, _, _, _, rfl, -⟩⟩ :=
      ofParts?_cases parts
    · cases written
    · exact .skip fun path => .skip fun text => .skip fun call => .pure (.plain rfl)

theorem LoopHead.flow_stmt (head : LoopHead) (block : List Stmt) :
    (head.stmt block).flow = .loop (blockFlow block) := by
  cases head <;> simp [LoopHead.stmt, Stmt.flow]

/-! ## Blocks -/

mutual

theorem stmt_flow (t : Translator) : ∀ (st : Tree.Stmt) (ctx : Context),
    Gives (stmt t st ctx) fun node => Flows ctx (st.flow ctx.isLast) (node.map Stmt.flow).toList
  | ⟨kind, _⟩, ctx => Gives.located (stmtKind_flow t kind ctx)

theorem stmtKind_flow (t : Translator) : ∀ (kind : Tree.StmtKind) (ctx : Context),
    Gives (stmtKind t kind ctx)
      fun node => Flows ctx (kind.flow ctx.isLast) (node.map Stmt.flow).toList
  | .expr value, ctx => by
    simp only [stmtKind]
    exact .skip fun node => .pure (.plain rfl)
  | .assign targets value, ctx => by
    simp only [stmtKind]
    exact .map (assignNode_flow targets value)
  | .augAssign target op value, ctx => by
    simp only [stmtKind]
    exact .map (augAssignNode_flow target op value)
  | .ret value, ctx => by
    simp only [stmtKind]
    exact .map (returnNode_flow value)
  | .ifElse test body orelse, ctx => by
    simp only [stmtKind]
    refine .skip fun test => (block_flow t body ctx).bind fun inside flows => ?_
    refine (otherwise_flow t orelse (block_flow t orelse) ctx).bind fun after flows' => .pure ?_
    exact flows.branch flows'
  | .whileLoop test body [], ctx => by
    simp only [stmtKind]
    refine .skip fun test => (block_flow t body ctx.looping).bind fun inside flows => .pure ?_
    exact flows.loop rfl rfl
  | .whileLoop _ _ (_ :: _), _ => Gives.fail
  | .forLoop target iter body [], ctx => by
    simp only [stmtKind]
    -- the scope of the loop variables is of no account for the flow
    have inside : ∀ scope, Gives (block t body (ctx.inScope scope).looping) fun nodes =>
        Flows ctx.looping (Tree.blockFlow false body) (blockFlow nodes) := fun scope =>
      (block_flow t body (ctx.inScope scope).looping).imp fun _ flows => ⟨flows.same, flows.placed⟩
    refine .skip fun head => (Gives.inScope inside).bind fun nodes flows => .pure ?_
    rw [Option.map_some, head.flow_stmt]
    exact flows.loop rfl rfl
  | .forLoop _ _ _ (_ :: _), _ => Gives.fail
  | .tryExcept body cases [] [], ctx => by
    simp only [stmtKind]
    refine (block_flow t body (ctx.last false)).bind fun inside flows => ?_
    refine (handlers_flow t cases [] (ctx.last false) rfl).bind fun others flows' => .pure ?_
    have flows : Flows ctx (Tree.blockFlow false body) (blockFlow inside) := ⟨flows.same, flows.placed⟩
    exact flows.attempt ⟨flows'.same, flows'.placed⟩
  | .tryExcept _ _ (_ :: _) _, _ => Gives.fail
  | .tryExcept _ _ [] (_ :: _), _ => Gives.fail
  | .raise none (some _), _ => Gives.fail
  | .raise (some _) (some _), _ => Gives.fail
  | .raise none none, _ => Gives.fail
  | .raise (some exc) none, ctx => by
    simp only [stmtKind]
    exact .map (raiseNode_flow exc)
  | .withItems items body, ctx => by
    simp only [stmtKind]
    exact .map (withNode_flow items body)
  | .breakLoop, ctx => by
    simp only [stmtKind]
    exact .map (jumpNode_flow _ rfl)
  | .continueLoop, ctx => by
    simp only [stmtKind]
    exact .map (jumpNode_flow _ rfl)
  | .pass, ctx => Gives.pure (.nil ctx)
  | .functionDef _, _ => Gives.fail
  | .classDef _, _ => Gives.fail
  | .importNames _, _ => Gives.fail
  | .importFrom .., _ => Gives.fail
  | .globalNames _, _ => Gives.fail
  | .nonlocalNames _, _ => Gives.fail
  | .delete _, _ => Gives.fail

/-- The chain of `elif` hands the place of the whole conditional on. -/
theorem otherwise_flow (t : Translator) : ∀ (orelse : List Tree.Stmt)
    {whole : Context → Run (List Stmt)},
    (∀ ctx, Gives (whole ctx)
      fun nodes => Flows ctx (Tree.blockFlow ctx.isLast orelse) (blockFlow nodes)) →
    ∀ ctx, Gives (otherwise t whole orelse ctx)
      fun after => Flows ctx (Tree.blockFlow ctx.isLast orelse) after.flow
  | [], _, _, ctx => Gives.pure (.nil ctx)
  | [⟨kind, pos⟩], whole, flows, ctx => by
    cases kind with
    | ifElse test body orelse =>
      simp only [otherwise]
      refine .located (.skip fun test => ?_)
      refine (block_flow t body ctx).bind fun inside flows => ?_
      refine (otherwise_flow t orelse (block_flow t orelse) ctx).bind fun after flows' => .pure ?_
      simp only [Tree.blockFlow, Tree.Stmt.flow, Tree.StmtKind.flow, List.isEmpty_nil,
        Bool.and_true, List.append_nil]
      exact flows.branch flows'
    | _ =>
      simp only [otherwise]
      exact .map (flows ctx)
  | _ :: _ :: _, whole, flows, ctx => by
    simp only [otherwise]
    exact .map (flows ctx)

/-- A block has the flow of what it was translated from. -/
theorem block_flow (t : Translator) : ∀ (body : List Tree.Stmt) (ctx : Context),
    Gives (block t body ctx)
      fun nodes => Flows ctx (Tree.blockFlow ctx.isLast body) (blockFlow nodes)
  | [], ctx => Gives.pure (.nil ctx)
  | st :: rest, ctx => by
    simp only [block]
    refine (stmt_flow t st _).bind fun node flows => ?_
    refine (block_flow t rest ctx).bind fun nodes flows' => .pure ?_
    have first : Flows ctx (st.flow (ctx.isLast && rest.isEmpty)) (blockFlow node.toList) := by
      cases node <;> exact ⟨flows.same, flows.placed⟩
    rw [blockFlow_append, Tree.blockFlow]
    exact first.append flows'

theorem handlers_flow (t : Translator) : ∀ (cases : List Tree.ExceptHandler)
    (caught : List String) (ctx : Context), ctx.isLast = false →
    Gives (handlers t cases caught ctx)
      fun hs => Flows ctx (Tree.handlersFlow cases) (handlersFlow hs)
  | [], _, ctx, _ => Gives.pure (.nil ctx)
  | ⟨type, name, body, pos⟩ :: rest, caught, ctx, notLast => by
    simp only [handlers]
    refine .skip fun exception => ?_
    refine (Gives.located (Gives.inScope fun scope =>
      (block_flow t body (ctx.inScope scope)).imp fun inside flows =>
        (⟨flows.same, flows.placed⟩ : Flows ctx (Tree.blockFlow ctx.isLast body) _))).bind
      fun handled flows => ?_
    refine (handlers_flow t rest (caught ++ [exception]) ctx notLast).bind fun others flows' =>
      .pure ?_
    rw [notLast] at flows
    exact flows.handler flows'

end

end Translate

end TreeTyper
