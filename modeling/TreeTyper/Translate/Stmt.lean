import TreeTyper.Translate.Exception
import TreeTyper.Translate.FileBlock

/-!
# Statements

`stmt` and `block` are a recursion on the syntax.  Only the last statement of a
block can be in tail position, and only if the block itself is; the bodies of
loops, of `try` and of its handlers are not.  A statement that does nothing
vanishes.

A return merges the type of its value into the signature of the definition around
it: the first one fixes the return type, later ones may fill its holes and have
to agree with it.
-/

namespace TreeTyper.Translate

open Typed

/-! ## Statements without blocks -/

def assignNode (t : Translator) (ctx : Context) (targets : List Tree.Expr) (value : Tree.Expr) :
    Run Stmt :=
  match targets with
  | [target] => do
    let value ← expr t value ctx
    assignTo t ctx target value
  | _ => fail .chainedAssignment

/-- An assignment of an operation on the current value of the target. -/
def augAssignNode (t : Translator) (ctx : Context) (target : Tree.Expr)
    (op : Tree.BinaryOperator) (value : Tree.Expr) : Run Stmt := do
  let current ← expr t target ctx
  let value ← expr t value ctx
  let combined ← check (binary t.setting.api op.symbol current value)
  assignTo t ctx target combined

/-- The return type of a definition after a return of a value of type `found`. -/
def mergeReturn (name : String) (current found : Ty) : Except Cause Ty :=
  if current ≠ .hole ∧ current.fill found ≠ found.fill current then
    .error (.returnType current name found)
  else .ok (current.fill found)

def returnValue (t : Translator) (ctx : Context) : Option Tree.Expr → Run Expr
  | some value => expr t value ctx
  | none => pure .null

def returnNode (t : Translator) (ctx : Context) (value : Option Tree.Expr) : Run Stmt :=
  match ctx.definition with
  | none => fail .returnOutside
  | some (_, cell) => do
    if ctx.isConstructor && value.isSome then fail (.constructorReturn ctx.name)
    else
      let node ← returnValue t ctx value
      if !ctx.isConstructor then
        let current ← signature cell
        let merged ← check (mergeReturn ctx.name current.ret node.type)
        setSignature cell { current with ret := merged }
      return .ret ctx.isLast node

/-- A jump out of a round of a loop. -/
def jumpNode (ctx : Context) (what : String) (jump : Stmt) : Run Stmt :=
  if ctx.inLoop then pure jump else fail (.outsideLoop what)

/-- The test of a conditional or a loop. -/
def testOf (t : Translator) (ctx : Context) (test : Tree.Expr) : Run Expr := do
  let node ← expr t test ctx
  check (testable node)

/-- A loop with the given head over a translated block. -/
def LoopHead.stmt (head : LoopHead) (block : List Stmt) : Stmt :=
  match head with
  | range start stop step index => .forRange start stop step index block
  | iterate sequence iterators => .forEach sequence iterators block

/-! ## Blocks -/

mutual

/-- Translates a statement; failures inside it that have no position get its own. -/
def stmt (t : Translator) : Tree.Stmt → Context → Run (Option Stmt)
  | ⟨kind, pos⟩, ctx => located pos (stmtKind t kind ctx)

def stmtKind (t : Translator) : Tree.StmtKind → Context → Run (Option Stmt)
  | .expr value, ctx => do
    let node ← expr t value ctx
    return some (.expr node)
  | .assign targets value, ctx => some <$> assignNode t ctx targets value
  | .augAssign target op value, ctx => some <$> augAssignNode t ctx target op value
  | .ret value, ctx => some <$> returnNode t ctx value
  | .ifElse test body orelse, ctx => do
    let test ← testOf t ctx test
    let inside ← block t body ctx
    let after ← otherwise t (block t orelse) orelse ctx
    return some (.ifElse test inside after)
  | .whileLoop test body [], ctx => do
    let test ← testOf t ctx test
    let inside ← block t body ctx.looping
    return some (.whileLoop test inside)
  | .whileLoop _ _ (_ :: _), _ => fail .whileElse
  | .forLoop target iter body [], ctx => do
    let head ← loopHead t ctx target ⟨iter, expr t iter⟩ (iterated t iter)
    let inside ← inScope ctx.scope (bindings head.binders) fun scope =>
      block t body (ctx.inScope scope).looping
    return some (head.stmt inside)
  | .forLoop _ _ _ (_ :: _), _ => fail .forElse
  | .tryExcept body cases [] [], ctx => do
    let inner := ctx.last false
    let inside ← block t body inner
    let others ← handlers t cases [] inner
    return some (.tryExcept inside others)
  | .tryExcept .., _ => fail .tryElse
  | .raise _ (some _), _ => fail .raiseFrom
  | .raise none none, _ => fail .bareRaise
  | .raise (some exc) none, ctx => some <$> raiseNode t ctx exc
  | .withItems items body, ctx => some <$> withNode t ctx items body
  | kind@(.breakLoop), ctx => some <$> jumpNode ctx kind.describe .breakLoop
  | kind@(.continueLoop), ctx => some <$> jumpNode ctx kind.describe .continueLoop
  | .pass, _ => return none
  | kind@(.functionDef _), _ => fail (.nestedDefinition kind.describe)
  | kind@(.classDef _), _ => fail (.nestedDefinition kind.describe)
  | .importNames _, _ => fail .lateImport
  | .importFrom .., _ => fail .lateImport
  | kind@(.globalNames _), _ => fail (.unsupported kind.describe)
  | kind@(.nonlocalNames _), _ => fail (.unsupported kind.describe)
  | kind@(.delete _), _ => fail (.unsupported kind.describe)

/-- What follows a conditional; `whole` translates the branch as a block. -/
def otherwise (t : Translator) (whole : Context → Run (List Stmt)) :
    List Tree.Stmt → Context → Run Otherwise
  | [], _ => return .nothing
  | [⟨.ifElse test body orelse, pos⟩], ctx => located pos do
    let test ← testOf t ctx test
    let inside ← block t body ctx
    let rest ← otherwise t (block t orelse) orelse ctx
    return .elseIf test inside rest
  | _, ctx => .block <$> whole ctx

/-- Translates the statements of a block. -/
def block (t : Translator) : List Tree.Stmt → Context → Run (List Stmt)
  | [], _ => return []
  | s :: rest, ctx => do
    let node ← stmt t s (ctx.last (ctx.isLast && rest.isEmpty))
    let nodes ← block t rest ctx
    return node.toList ++ nodes

/-- Translates handlers that stand after handlers of the exceptions `caught`. -/
def handlers (t : Translator) : List Tree.ExceptHandler → List String → Context →
    Run (List Handler)
  | [], _, _ => return []
  | ⟨type, name, body, pos⟩ :: rest, caught, ctx => do
    let exception ← nextException pos type caught
    let handled ← located pos <| inScope ctx.scope (handlerBindings exception name) fun scope =>
      block t body (ctx.inScope scope)
    let others ← handlers t rest (caught ++ [exception]) ctx
    return ⟨exception, name, handled⟩ :: others

end

end TreeTyper.Translate
