import Mathlib.Data.List.Forall2
import TreeTyper.Proofs.Code
import TreeTyper.Proofs.Gives
import TreeTyper.Proofs.Nodes
import TreeTyper.Translate.Stmt

/-!
# Skeletons

The skeleton of a block is its statements without their expressions: where an
assignment stores, which variables a loop binds, which exception a handler catches
under which name, and how blocks nest.  A statement that does nothing has none; one
that has no place in a block has a skeleton that no block of the typed tree has.

    (block t body ctx).run s = (.ok nodes, s') →
      blockSkeleton nodes = Tree.blockSkeleton body        (Translate.block_skeleton)
-/

namespace TreeTyper

/-- Where an assignment stores. -/
inductive Place where
  | variable (name : String)
  | attribute (name : String)
  | element
  deriving DecidableEq, Repr

/-- A statement without its expressions. -/
inductive Skeleton where
  | expr
  | store (place : Place)
  | ret
  | branch (body orelse : List Skeleton)
  | whileLoop (body : List Skeleton)
  | forLoop (names : List String) (body : List Skeleton)
  | attempt (body handlers : List Skeleton)
  /-- A handler of an attempt. -/
  | handler (exception : String) (name : Option String) (body : List Skeleton)
  | throw
  | breakLoop
  | continueLoop
  /-- What has no place in a block. -/
  | misplaced
  deriving Repr

/-- The skeleton of a part that may not be there. -/
def rejected (isThere : Bool) : List Skeleton := if isThere then [.misplaced] else []

mutual

/-- Whether there is a return in a skeleton. -/
def Skeleton.returns : Skeleton → Bool
  | .ret => true
  | .branch body orelse => anyReturns body || anyReturns orelse
  | .whileLoop body => anyReturns body
  | .forLoop _ body => anyReturns body
  | .attempt body handlers => anyReturns body || anyReturns handlers
  | .handler _ _ body => anyReturns body
  | _ => false

def anyReturns : List Skeleton → Bool
  | [] => false
  | s :: rest => s.returns || anyReturns rest

end

theorem anyReturns_append (first second : List Skeleton) :
    anyReturns (first ++ second) = (anyReturns first || anyReturns second) := by
  induction first with
  | nil => rfl
  | cons s rest ih => simp [anyReturns, ih, Bool.or_assoc]

namespace Tree

def Expr.place (target : Expr) : Place :=
  match target.kind with
  | .name id => .variable id
  | .attr _ name => .attribute name
  | _ => .element

/-- The variables of the target of a loop. -/
def Expr.boundNames (target : Expr) : List String :=
  match target.kind with
  | .tuple elts => elts.filterMap name?
  | _ => target.name?.toList

def Stmt.isPass (s : Stmt) : Bool :=
  match s.kind with
  | .pass => true
  | _ => false

/-- The exception that a handler names; one without a name catches all. -/
def handledName : Option Expr → String
  | none => Ty.exceptionName
  | some type => type.name?.getD ""

mutual

def Stmt.skeleton : Stmt → List Skeleton
  | ⟨kind, _⟩ => kind.skeleton

def StmtKind.skeleton : StmtKind → List Skeleton
  | .expr _ => [.expr]
  | .assign targets _ =>
    targets.map (fun target => .store target.place) ++ rejected (targets.length ≠ 1)
  | .augAssign target _ _ => [.store target.place]
  | .ret _ => [.ret]
  | .ifElse _ body orelse => [.branch (blockSkeleton body) (blockSkeleton orelse)]
  | .whileLoop _ body orelse => .whileLoop (blockSkeleton body) :: rejected (!orelse.isEmpty)
  | .forLoop target _ body orelse =>
    .forLoop target.boundNames (blockSkeleton body) :: rejected (!orelse.isEmpty)
  | .tryExcept body handlers orelse finalbody =>
    .attempt (blockSkeleton body) (handlersSkeleton handlers) ::
      rejected (!orelse.isEmpty || !finalbody.isEmpty)
  | .raise exc cause => .throw :: rejected (exc.isNone || cause.isSome)
  | .withItems _ body => blockSkeleton body ++ rejected (body.length ≠ 1)
  | .breakLoop => [.breakLoop]
  | .continueLoop => [.continueLoop]
  | .pass => []
  | .functionDef _ | .classDef _ | .importNames _ | .importFrom .. | .globalNames _
  | .nonlocalNames _ | .delete _ => [.misplaced]

/-- The skeleton of a block. -/
def blockSkeleton : List Stmt → List Skeleton
  | [] => []
  | s :: rest => s.skeleton ++ blockSkeleton rest

def handlersSkeleton : List ExceptHandler → List Skeleton
  | [] => []
  | ⟨type, name, body, _⟩ :: rest =>
    .handler (handledName type) name (blockSkeleton body) :: handlersSkeleton rest

end

mutual

theorem Stmt.returns_skeleton : ∀ s : Stmt, s.returns → anyReturns s.skeleton
  | ⟨kind, _⟩ => kind.returns_skeleton

theorem StmtKind.returns_skeleton : ∀ kind : StmtKind, kind.returns → anyReturns kind.skeleton
  | .ret _, _ => rfl
  | .ifElse _ body orelse, returns => by
    simp only [StmtKind.returns, Bool.or_eq_true] at returns
    simp only [StmtKind.skeleton, anyReturns, Skeleton.returns, Bool.or_false, Bool.or_eq_true]
    exact returns.imp (blockReturns_skeleton body) (blockReturns_skeleton orelse)
  | .whileLoop _ body _, returns => by
    simp [StmtKind.skeleton, anyReturns, Skeleton.returns, blockReturns_skeleton body returns]
  | .forLoop _ _ body _, returns => by
    simp [StmtKind.skeleton, anyReturns, Skeleton.returns, blockReturns_skeleton body returns]
  | .tryExcept body handlers _ _, returns => by
    simp only [StmtKind.returns, Bool.or_eq_true] at returns
    simp only [StmtKind.skeleton, anyReturns, Skeleton.returns, Bool.or_eq_true]
    exact .inl (returns.imp (blockReturns_skeleton body) (handlersReturn_skeleton handlers))
  | .functionDef _, returns => nomatch returns
  | .classDef _, returns => nomatch returns
  | .assign .., returns => nomatch returns
  | .augAssign .., returns => nomatch returns
  | .expr _, returns => nomatch returns
  | .raise .., returns => nomatch returns
  | .withItems .., returns => nomatch returns
  | .importNames _, returns => nomatch returns
  | .importFrom .., returns => nomatch returns
  | .globalNames _, returns => nomatch returns
  | .nonlocalNames _, returns => nomatch returns
  | .delete _, returns => nomatch returns
  | .pass, returns => nomatch returns
  | .breakLoop, returns => nomatch returns
  | .continueLoop, returns => nomatch returns

/-- A return is in the skeleton of its block. -/
theorem blockReturns_skeleton : ∀ body : List Stmt,
    blockReturns body → anyReturns (blockSkeleton body)
  | [], returns => nomatch returns
  | s :: rest, returns => by
    simp only [blockReturns, Bool.or_eq_true] at returns
    simp only [blockSkeleton, anyReturns_append, Bool.or_eq_true]
    exact returns.imp s.returns_skeleton (blockReturns_skeleton rest)

theorem handlersReturn_skeleton : ∀ handlers : List ExceptHandler,
    handlersReturn handlers → anyReturns (handlersSkeleton handlers)
  | [], returns => nomatch returns
  | ⟨_, _, body, _⟩ :: rest, returns => by
    simp only [handlersReturn, Bool.or_eq_true] at returns
    simp only [handlersSkeleton, anyReturns, Skeleton.returns, Bool.or_eq_true]
    exact returns.imp (blockReturns_skeleton body) (handlersReturn_skeleton rest)

end

end Tree

namespace Typed

def Expr.place (target : Expr) : Place :=
  match target.kind with
  | .attr _ name => .attribute name
  | _ => .element

mutual

def Stmt.skeleton : Stmt → Skeleton
  | .expr _ => .expr
  | .localAssignment name _ => .store (.variable name)
  | .instanceAssignment name _ => .store (.attribute name)
  | .attrAssignment target _ => .store target.place
  | .indexAssignment .. => .store .element
  | .ret .. => .ret
  | .ifElse _ block otherwise => .branch (blockSkeleton block) otherwise.skeleton
  | .whileLoop _ block => .whileLoop (blockSkeleton block)
  | .forEach _ iterators block => .forLoop (iterators.binders.map (·.name)) (blockSkeleton block)
  | .forRange _ _ _ index block => .forLoop [index] (blockSkeleton block)
  | .tryExcept block handlers => .attempt (blockSkeleton block) (handlersSkeleton handlers)
  | .throw .. => .throw
  | .breakLoop => .breakLoop
  | .continueLoop => .continueLoop

def Otherwise.skeleton : Otherwise → List Skeleton
  | .nothing => []
  | .elseIf _ block otherwise => [.branch (blockSkeleton block) otherwise.skeleton]
  | .block block => blockSkeleton block

def blockSkeleton : List Stmt → List Skeleton
  | [] => []
  | s :: rest => s.skeleton :: blockSkeleton rest

def handlersSkeleton : List Handler → List Skeleton
  | [] => []
  | ⟨exception, name, block⟩ :: rest =>
    .handler exception name (blockSkeleton block) :: handlersSkeleton rest

end

theorem blockSkeleton_append (first second : List Stmt) :
    blockSkeleton (first ++ second) = blockSkeleton first ++ blockSkeleton second := by
  induction first with
  | nil => rfl
  | cons s rest ih => simp [blockSkeleton, ih]

mutual

theorem Stmt.returns_skeleton : ∀ s : Stmt, s.skeleton.returns = false ↔ s.returned = []
  | .ifElse _ block otherwise => by
    simp [Stmt.skeleton, Skeleton.returns, Stmt.returned, returns_blockSkeleton block,
      otherwise.returns_skeleton]
  | .whileLoop _ block => by
    simp [Stmt.skeleton, Skeleton.returns, Stmt.returned, returns_blockSkeleton block]
  | .forEach _ _ block => by
    simp [Stmt.skeleton, Skeleton.returns, Stmt.returned, returns_blockSkeleton block]
  | .forRange _ _ _ _ block => by
    simp [Stmt.skeleton, Skeleton.returns, Stmt.returned, returns_blockSkeleton block]
  | .tryExcept block handlers => by
    simp [Stmt.skeleton, Skeleton.returns, Stmt.returned, returns_blockSkeleton block,
      returns_handlersSkeleton handlers]
  | .expr _ => by simp [Stmt.skeleton, Skeleton.returns, Stmt.returned]
  | .localAssignment .. => by simp [Stmt.skeleton, Skeleton.returns, Stmt.returned]
  | .instanceAssignment .. => by simp [Stmt.skeleton, Skeleton.returns, Stmt.returned]
  | .attrAssignment .. => by simp [Stmt.skeleton, Skeleton.returns, Stmt.returned]
  | .indexAssignment .. => by simp [Stmt.skeleton, Skeleton.returns, Stmt.returned]
  | .ret .. => by simp [Stmt.skeleton, Skeleton.returns, Stmt.returned]
  | .throw .. => by simp [Stmt.skeleton, Skeleton.returns, Stmt.returned]
  | .breakLoop => by simp [Stmt.skeleton, Skeleton.returns, Stmt.returned]
  | .continueLoop => by simp [Stmt.skeleton, Skeleton.returns, Stmt.returned]

theorem Otherwise.returns_skeleton : ∀ o : Otherwise,
    anyReturns o.skeleton = false ↔ o.returned = []
  | .nothing => by simp [Otherwise.skeleton, anyReturns, Otherwise.returned]
  | .elseIf _ block otherwise => by
    simp [Otherwise.skeleton, anyReturns, Skeleton.returns, Otherwise.returned,
      returns_blockSkeleton block, otherwise.returns_skeleton]
  | .block block => returns_blockSkeleton block

theorem returns_blockSkeleton : ∀ block : List Stmt,
    anyReturns (blockSkeleton block) = false ↔ blockReturned block = []
  | [] => by simp [blockSkeleton, anyReturns, blockReturned]
  | s :: rest => by
    simp [blockSkeleton, anyReturns, blockReturned, s.returns_skeleton, returns_blockSkeleton rest]

theorem returns_handlersSkeleton : ∀ handlers : List Handler,
    anyReturns (handlersSkeleton handlers) = false ↔ handlerReturned handlers = []
  | [] => by simp [handlersSkeleton, anyReturns, handlerReturned]
  | ⟨_, _, block⟩ :: rest => by
    simp [handlersSkeleton, anyReturns, Skeleton.returns, handlerReturned,
      returns_blockSkeleton block, returns_handlersSkeleton rest]

end

end Typed

namespace Translate

open Typed

variable {t : Translator} {ctx : Context}

/-! ## Statements without blocks -/

theorem assignTo_skeleton (target : Tree.Expr) (value : Expr) :
    Gives (assignTo t ctx target value) fun st => st.skeleton = .store target.place := by
  obtain ⟨kind, pos⟩ := target
  unfold assignTo
  dsimp only
  split
  · unfold assignName
    split
    · exact .failAt
    split
    · exact .failAt
    · refine .skip fun owner => ?_
      split
      · refine .skip fun s => ?_
        refine .walk_bind ?_
        split
        · exact .skip fun _ => .pure rfl
        · exact .skip fun _ => .pure rfl
      · exact .skip fun _ => .pure rfl
  · refine .skip fun object => ?_
    unfold assignAttribute
    refine .skip fun s => ?_
    split
    · exact .failAt
    split
    · exact .skip fun _ => .pure rfl
    · exact .skip fun _ => .pure rfl
  · refine .skip fun sequence => .skip fun index => ?_
    unfold assignElement
    refine .skip fun s => .walk_bind (.skip fun stored => ?_)
    dsimp only
    split
    · exact .skip fun sequence => .pure rfl
    · exact .skip fun sequence => .pure rfl
  · exact .fail
  · exact .fail
  · exact .fail
  · exact .fail

theorem assignNode_skeleton (targets : List Tree.Expr) (value : Tree.Expr) :
    Gives (assignNode t ctx targets value)
      fun st => (Tree.StmtKind.assign targets value).skeleton = [st.skeleton] := by
  unfold assignNode
  split
  · refine .skip fun value => (assignTo_skeleton _ value).imp fun st same => ?_
    rw [same]
    rfl
  · exact .fail

theorem augAssignNode_skeleton (target : Tree.Expr) (op : Tree.BinaryOperator)
    (value : Tree.Expr) :
    Gives (augAssignNode t ctx target op value) fun st => st.skeleton = .store target.place := by
  unfold augAssignNode
  exact .skip fun current => .skip fun value => .skip fun combined => assignTo_skeleton target _

theorem returnNode_skeleton (value : Option Tree.Expr) :
    Gives (returnNode t ctx value) fun st => st.skeleton = .ret := by
  unfold returnNode
  split
  · exact .fail
  split
  · exact .fail
  refine .skip fun node => ?_
  split
  · exact .skip fun current => .skip fun merged => .skip fun _ => .pure rfl
  · exact .pure rfl

theorem jumpNode_skeleton (what : String) (jump : Stmt) :
    Gives (jumpNode ctx what jump) fun st => st.skeleton = jump.skeleton := by
  unfold jumpNode
  split
  · exact .pure rfl
  · exact .fail

theorem raiseNode_skeleton (exc : Tree.Expr) :
    Gives (raiseNode t ctx exc) fun st => st.skeleton = .throw := by
  unfold raiseNode
  split
  · split
    · refine .skip fun s => ?_
      split
      · exact .failAt
      split
      · refine .skip fun value => ?_
        split
        · exact .pure rfl
        · exact .failAt
      · exact .fail
    · exact .fail
  · exact .fail

/-- A file block reads into the target of an assignment, or writes the text of a call. -/
theorem ofParts?_cases {items : List Tree.WithItem} {body : List Tree.Stmt} {found : FileBlock}
    (parts : FileBlock.ofParts? items body = .ok found) :
    ∃ func path mode keywords callPos vars,
      items = [⟨⟨.call func [path, mode] keywords, callPos⟩, vars⟩] ∧
      ((∃ target value pos, body = [⟨.assign [target] value, pos⟩] ∧
          found = .read path target pos) ∨
        ∃ callee text textPos pos, body = [⟨.expr ⟨.call callee [text] [], textPos⟩, pos⟩] ∧
          found = .write path text pos) := by
  unfold FileBlock.ofParts? at parts
  split at parts
  · next opener openerPos path mode keywords callPos file filePos =>
    refine ⟨_, path, mode, keywords, callPos, _, rfl, ?_⟩
    split at parts
    · split at parts
      · cases parts
      split at parts
      · next st =>
        obtain ⟨kind, pos⟩ := st
        unfold FileBlock.ofStmt? at parts
        dsimp only at parts
        split at parts
        -- an assignment reads the file
        · next target value =>
          split at parts
          · cases parts
          split at parts
          · cases parts
            exact .inl ⟨target, value, pos, rfl, rfl⟩
          · cases parts
        -- a call writes it
        · next value =>
          split at parts
          · cases parts
          split at parts
          · next text written =>
            cases parts
            obtain ⟨valueKind, textPos⟩ := value
            unfold FileBlock.fileCall? at written
            dsimp only at written
            split at written
            · split at written
              · cases written
                exact .inr ⟨_, text, textPos, pos, rfl, rfl⟩
              · cases written
            · cases written
          · cases parts
        · cases parts
      · cases parts
    · cases parts
  · cases parts

theorem withNode_skeleton (items : List Tree.WithItem) (body : List Tree.Stmt) :
    Gives (withNode t ctx items body)
      fun st => (Tree.StmtKind.withItems items body).skeleton = [st.skeleton] := by
  unfold withNode
  split
  · exact .failAt
  · exact .fail
  · next path target pos parts =>
    refine .skip fun path => .skip fun text => .located ?_
    refine (assignTo_skeleton target text).imp fun st same => ?_
    obtain ⟨_, _, _, _, _, _, -, ⟨_, _, _, rfl, read⟩ | ⟨_, _, _, _, _, read⟩⟩ :=
      ofParts?_cases parts
    · cases read
      rw [same]
      rfl
    · cases read
  · next path text pos parts =>
    refine .skip fun path => .skip fun text => .skip fun call => .pure ?_
    obtain ⟨_, _, _, _, _, _, -, ⟨_, _, _, _, written⟩ | ⟨_, _, _, _, rfl, written⟩⟩ :=
      ofParts?_cases parts
    · cases written
    · rfl

/-! ## Heads of loops and handlers -/

/-- The variables of a head are those of its target. -/
def LoopHead.Binds (head : LoopHead) (target : Tree.Expr) : Prop :=
  head.binders.map (·.name) = target.boundNames

theorem filterMap_of_namesOf {elts : List Tree.Expr} {names : List String}
    (named : namesOf elts = some names) : elts.filterMap Tree.Expr.name? = names := by
  induction elts generalizing names with
  | nil => cases named; rfl
  | cons e es ih =>
    obtain ⟨id, first, rest⟩ := Option.bind_eq_some_iff.mp named
    obtain ⟨ids, others, same⟩ := Option.bind_eq_some_iff.mp rest
    cases same
    rw [List.filterMap_cons, first, ih others]

theorem boundNames_of_name? {target : Tree.Expr} {id : String} (named : target.name? = some id) :
    target.boundNames = [id] := by
  obtain ⟨kind, pos⟩ := target
  cases kind with
  | name _ =>
    cases named
    rfl
  | _ => cases named

theorem boundNames_of_targetNames? {target : Tree.Expr} {names : List String}
    (named : targetNames? target = some names) : target.boundNames = names := by
  obtain ⟨kind, pos⟩ := target
  cases kind <;> first | exact filterMap_of_namesOf named | cases named

theorem boundNames_of_targetPair? {target : Tree.Expr} {names : String × String}
    (named : targetPair? target = some names) : target.boundNames = [names.1, names.2] := by
  unfold targetPair? at named
  split at named
  · next a b found =>
    cases named
    exact boundNames_of_targetNames? found
  · cases named

theorem rangeHead_binds (target : Tree.Expr) (args : List Deferred) :
    Gives (rangeHead ctx target args) fun head => head.Binds target := by
  unfold rangeHead
  split
  · exact .failAt
  · next index named =>
    have binds : ∀ start stop step, (LoopHead.range start stop step index).Binds target :=
      fun _ _ _ => (boundNames_of_name? named).symm
    refine .ite .fail (.skip fun nodes => ?_)
    split
    · exact .pure (binds _ _ _)
    · exact .pure (binds _ _ _)
    · exact .pure (binds _ _ _)
    · exact .fail

theorem enumerateHead_binds (target : Tree.Expr) (args : List Deferred) :
    Gives (enumerateHead ctx target args) fun head => head.Binds target := by
  unfold enumerateHead
  split
  · exact .failAt
  · next names named =>
    split
    · refine .skip fun sequence => ?_
      split
      · exact .pure (boundNames_of_targetPair? named).symm
      · exact .skip fun elem => .pure (boundNames_of_targetPair? named).symm
    · exact .fail

theorem zipNodes_names (sources : List (Deferred × String)) :
    Gives (zipNodes ctx sources)
      fun nodes => nodes.map (·.2.name) = sources.map (·.2) := by
  induction sources with
  | nil => exact .pure rfl
  | cons source rest ih =>
    obtain ⟨d, name⟩ := source
    unfold zipNodes
    refine .skip fun sequence => .skip fun elem => ih.bind fun nodes same => .pure ?_
    rw [List.map_cons, same, List.map_cons]

theorem zipHead_binds (target : Tree.Expr) (args : List Deferred) :
    Gives (zipHead ctx target args) fun head => head.Binds target := by
  unfold zipHead
  split
  · exact .fail
  split
  · exact .failAt
  · next names found =>
    obtain ⟨named, length⟩ := Option.filter_eq_some_iff.mp found
    refine (zipNodes_names (args.zip names)).bind fun nodes same => .pure ?_
    have whole : names.length ≤ args.length := by
      simpa using Nat.le_of_eq (of_decide_eq_true length)
    change ((nodes.map (·.2)).map (·.name)) = target.boundNames
    rw [List.map_map, boundNames_of_targetNames? named, ← List.map_snd_zip whole]
    exact same

theorem itemsHead_binds (target : Tree.Expr) (receiver : Deferred) :
    Gives (itemsHead t ctx target receiver) fun head => head.Binds target := by
  unfold itemsHead
  refine .skip fun sequence => ?_
  split
  · split
    · next names named => exact .pure (boundNames_of_targetPair? named).symm
    · exact .failAt
  · exact .skip fun s => .fail

theorem plainHead_binds (target : Tree.Expr) (iter : Deferred) :
    Gives (plainHead ctx target iter) fun head => head.Binds target := by
  unfold plainHead
  split
  · exact .failAt
  · next name named =>
    exact .skip fun sequence => .skip fun elem => .pure (boundNames_of_name? named).symm

theorem loopHead_binds (target : Tree.Expr) (iter : Deferred) (form : Iterated) :
    Gives (loopHead t ctx target iter form) fun head => head.Binds target := by
  have unchecked : Gives (uncheckedHead t ctx target iter form) fun head => head.Binds target := by
    unfold uncheckedHead
    split
    · refine .skip fun isBuiltin => ?_
      split
      · split
        · exact rangeHead_binds target _
        split
        · exact enumerateHead_binds target _
        · exact zipHead_binds target _
      · exact plainHead_binds target iter
    · exact itemsHead_binds target _
    · exact plainHead_binds target iter
  exact unchecked.bind fun head binds => .skip fun _ => .pure binds

theorem nextException_named (pos : Pos) (type : Option Tree.Expr) (caught : List String) :
    Gives (nextException pos type caught) fun exception => exception = Tree.handledName type := by
  have handled : ∀ h, Gives (handledException h type)
      fun exception => exception = Tree.handledName type := by
    intro h
    unfold handledException
    split
    · exact .pure rfl
    · next type =>
      obtain ⟨kind, pos⟩ := type
      dsimp only
      split
      · split
        · exact .pure rfl
        · exact .failAt
      · exact .failAt
  unfold nextException
  refine .skip fun s => (handled _).bind fun exception named => .walk_bind ?_
  split
  · exact .failAt
  · exact .pure named

/-! ## Blocks -/

theorem LoopHead.skeleton_stmt (head : LoopHead) (block : List Stmt) :
    (head.stmt block).skeleton =
      .forLoop (head.binders.map (·.name)) (blockSkeleton block) := by
  cases head <;> rfl

mutual

theorem stmt_skeleton (t : Translator) : ∀ (st : Tree.Stmt) (ctx : Context),
    Gives (stmt t st ctx) fun node => (node.map Stmt.skeleton).toList = st.skeleton
  | ⟨kind, _⟩, ctx => Gives.located (stmtKind_skeleton t kind ctx)

theorem stmtKind_skeleton (t : Translator) : ∀ (kind : Tree.StmtKind) (ctx : Context),
    Gives (stmtKind t kind ctx) fun node => (node.map Stmt.skeleton).toList = kind.skeleton
  | .expr value, ctx => by
    simp only [stmtKind]
    exact .skip fun node => .pure rfl
  | .assign targets value, ctx => by
    simp only [stmtKind]
    exact .map ((assignNode_skeleton targets value).imp fun st same => same.symm)
  | .augAssign target op value, ctx => by
    simp only [stmtKind]
    exact .map ((augAssignNode_skeleton target op value).imp fun st same => congrArg ([·]) same)
  | .ret value, ctx => by
    simp only [stmtKind]
    exact .map ((returnNode_skeleton value).imp fun st same => congrArg ([·]) same)
  | .ifElse test body orelse, ctx => by
    simp only [stmtKind]
    refine .skip fun test => (block_skeleton t body ctx).bind fun inside same => ?_
    refine (otherwise_skeleton t orelse (block_skeleton t orelse) ctx).bind fun after same' =>
      .pure ?_
    simp [Stmt.skeleton, Tree.StmtKind.skeleton, same, same']
  | .whileLoop test body [], ctx => by
    simp only [stmtKind]
    refine .skip fun test => (block_skeleton t body ctx.looping).bind fun inside same => .pure ?_
    simp [Stmt.skeleton, Tree.StmtKind.skeleton, same, rejected]
  | .whileLoop _ _ (_ :: _), _ => Gives.fail
  | .forLoop target iter body [], ctx => by
    simp only [stmtKind]
    refine (loopHead_binds target _ _).bind fun head binds => ?_
    refine (Gives.inScope fun scope =>
      block_skeleton t body (ctx.inScope scope).looping).bind fun inside same => .pure ?_
    have bound : head.binders.map (·.name) = target.boundNames := binds
    simp [head.skeleton_stmt, Tree.StmtKind.skeleton, same, bound, rejected]
  | .forLoop _ _ _ (_ :: _), _ => Gives.fail
  | .tryExcept body cases [] [], ctx => by
    simp only [stmtKind]
    refine (block_skeleton t body (ctx.last false)).bind fun inside same => ?_
    refine (handlers_skeleton t cases [] (ctx.last false)).bind fun others same' => .pure ?_
    simp [Stmt.skeleton, Tree.StmtKind.skeleton, same, same', rejected]
  | .tryExcept _ _ (_ :: _) _, _ => Gives.fail
  | .tryExcept _ _ [] (_ :: _), _ => Gives.fail
  | .raise none (some _), _ => Gives.fail
  | .raise (some _) (some _), _ => Gives.fail
  | .raise none none, _ => Gives.fail
  | .raise (some exc) none, ctx => by
    simp only [stmtKind]
    exact .map ((raiseNode_skeleton exc).imp fun st same => congrArg ([·]) same)
  | .withItems items body, ctx => by
    simp only [stmtKind]
    exact .map ((withNode_skeleton items body).imp fun st same => same.symm)
  | .breakLoop, ctx => by
    simp only [stmtKind]
    exact .map ((jumpNode_skeleton _ _).imp fun st same => congrArg ([·]) same)
  | .continueLoop, ctx => by
    simp only [stmtKind]
    exact .map ((jumpNode_skeleton _ _).imp fun st same => congrArg ([·]) same)
  | .pass, _ => Gives.pure rfl
  | .functionDef _, _ => Gives.fail
  | .classDef _, _ => Gives.fail
  | .importNames _, _ => Gives.fail
  | .importFrom .., _ => Gives.fail
  | .globalNames _, _ => Gives.fail
  | .nonlocalNames _, _ => Gives.fail
  | .delete _, _ => Gives.fail

theorem otherwise_skeleton (t : Translator) : ∀ (orelse : List Tree.Stmt)
    {whole : Context → Run (List Stmt)},
    (∀ ctx, Gives (whole ctx) fun nodes => blockSkeleton nodes = Tree.blockSkeleton orelse) →
    ∀ ctx, Gives (otherwise t whole orelse ctx)
      fun after => after.skeleton = Tree.blockSkeleton orelse
  | [], _, _, _ => Gives.pure rfl
  | [⟨kind, pos⟩], whole, same, ctx => by
    cases kind with
    | ifElse test body orelse =>
      simp only [otherwise]
      refine .located (.skip fun test => ?_)
      refine (block_skeleton t body ctx).bind fun inside same => ?_
      refine (otherwise_skeleton t orelse (block_skeleton t orelse) ctx).bind
        fun after same' => .pure ?_
      simp [Otherwise.skeleton, Tree.blockSkeleton, Tree.Stmt.skeleton, Tree.StmtKind.skeleton,
        same, same']
    | _ =>
      simp only [otherwise]
      exact .map (same ctx)
  | _ :: _ :: _, whole, same, ctx => by
    simp only [otherwise]
    exact .map (same ctx)

/-- A block has the skeleton of what it was translated from. -/
theorem block_skeleton (t : Translator) : ∀ (body : List Tree.Stmt) (ctx : Context),
    Gives (block t body ctx) fun nodes => blockSkeleton nodes = Tree.blockSkeleton body
  | [], _ => Gives.pure rfl
  | st :: rest, ctx => by
    simp only [block]
    refine (stmt_skeleton t st _).bind fun node same => ?_
    refine (block_skeleton t rest ctx).bind fun nodes same' => .pure ?_
    rw [blockSkeleton_append, Tree.blockSkeleton, ← same, ← same']
    cases node <;> rfl

theorem handlers_skeleton (t : Translator) : ∀ (cases : List Tree.ExceptHandler)
    (caught : List String) (ctx : Context), Gives (handlers t cases caught ctx)
      fun hs => handlersSkeleton hs = Tree.handlersSkeleton cases
  | [], _, _ => Gives.pure rfl
  | ⟨type, name, body, pos⟩ :: rest, caught, ctx => by
    simp only [handlers]
    refine (nextException_named pos type caught).bind fun exception named => ?_
    refine (Gives.located (Gives.inScope fun scope =>
      block_skeleton t body (ctx.inScope scope))).bind fun handled same => ?_
    refine (handlers_skeleton t rest (caught ++ [exception]) ctx).bind fun others same' => .pure ?_
    simp [handlersSkeleton, Tree.handlersSkeleton, same, same', named]

end

/-! ## Statement by statement -/

/-- Only a statement that does nothing vanishes. -/
theorem stmt_isSome (st : Tree.Stmt) (ctx : Context) :
    Gives (stmt t st ctx) fun node => node.isSome = !st.isPass := by
  obtain ⟨kind, pos⟩ := st
  have kept : ∀ act : Run Stmt, Gives (some <$> act) fun node => node.isSome = true :=
    fun act => .map (.imp (.anything act) fun _ _ => rfl)
  unfold stmt
  refine .located ?_
  cases kind with
  | expr value =>
    simp only [stmtKind]
    exact .skip fun node => .pure rfl
  | ifElse test body orelse =>
    simp only [stmtKind]
    exact .skip fun test => .skip fun inside => .skip fun after => .pure rfl
  | whileLoop test body orelse =>
    cases orelse with
    | nil =>
      simp only [stmtKind]
      exact .skip fun test => .skip fun inside => .pure rfl
    | cons _ _ => exact .fail
  | forLoop target iter body orelse =>
    cases orelse with
    | nil =>
      simp only [stmtKind]
      exact .skip fun head => .skip fun inside => .pure rfl
    | cons _ _ => exact .fail
  | tryExcept body handlers orelse finalbody =>
    cases orelse with
    | nil =>
      cases finalbody with
      | nil =>
        simp only [stmtKind]
        exact .skip fun inside => .skip fun others => .pure rfl
      | cons _ _ => exact .fail
    | cons _ _ => exact .fail
  | raise exc cause =>
    cases cause with
    | none =>
      cases exc with
      | none => exact .fail
      | some exc => exact kept _
    | some _ => cases exc <;> exact .fail
  | pass => exact .pure rfl
  | assign | augAssign | ret | withItems | breakLoop | continueLoop => exact kept _
  | functionDef | classDef | importNames | importFrom | globalNames | nonlocalNames | delete =>
    exact .fail

/-- A block has one statement for each that does something, in their order. -/
theorem block_statements (t : Translator) (body : List Tree.Stmt) (ctx : Context) :
    Gives (block t body ctx) fun nodes =>
      List.Forall₂ (fun st node => st.skeleton = [Stmt.skeleton node])
        (body.filter (!·.isPass)) nodes := by
  induction body generalizing ctx with
  | nil => exact .pure .nil
  | cons st rest ih =>
    simp only [block]
    refine .bind (.and (stmt_skeleton t st _) (stmt_isSome st _)) fun node ⟨same, isSome⟩ => ?_
    refine (ih ctx).bind fun nodes others => .pure ?_
    cases isPass : st.isPass with
    | true =>
      rw [isPass] at isSome
      obtain rfl : node = none := by simpa using isSome
      rw [List.filter_cons_of_neg (by simp [isPass])]
      exact others
    | false =>
      rw [isPass] at isSome
      obtain ⟨found, rfl⟩ := Option.isSome_iff_exists.mp isSome
      rw [List.filter_cons_of_pos (by simp [isPass])]
      exact .cons same.symm others

end Translate

end TreeTyper
