import TreeTyper.Translate.Call
import TreeTyper.Translate.Container
import TreeTyper.Translate.Loop

/-!
# Expressions

`expr` is a recursion on the syntax.  It gives every form its parts as deferred
runs and leaves what to do with them to the form; calls reach definitions through
the translator's `infer`.
-/

namespace TreeTyper.Translate

open TreeTyper.Tree (ExprKind)

/-- An attribute of a value. -/
def attributeOf (t : Translator) (ctx : Context) (value : Deferred) (attr : String) :
    Run Typed.Expr := do
  let object ← value.run ctx
  let h := (← get).hierarchy
  walk (h.attributeEnds object.type.head attr)
  match h.attribute? object.type.head attr with
  | none => fail (unknownAttribute t.setting.api h object.type attr)
  | some (_, entry) =>
    match object.kind with
    | .this => return ⟨.instanceVar attr, entry.ty⟩
    | _ => return ⟨.attr object attr, entry.ty⟩

/-- An attribute that is read. -/
def attrNode (t : Translator) (ctx : Context) (value : Deferred) (attr : String) :
    Run Typed.Expr := do
  let moduleName? ← match value.source.name? with
    | some id =>
      if id ∈ t.setting.imports then
        if (← lookup ctx.scope id).isNone then pure (some id) else pure none
      else pure none
    | none => pure none
  match moduleName? with
  | some id => fail (.moduleAttribute id attr)
  | none => attributeOf t ctx value attr

/-- A binary operation on operands still to be translated. -/
def binOpNode (t : Translator) (ctx : Context) (op : Tree.BinaryOperator)
    (left right : Deferred) : Run Typed.Expr := do
  let left ← left.run ctx
  let right ← right.run ctx
  check (binary t.setting.api op.symbol left right)

mutual

/-- Translates an expression; failures inside it that have no position get its own. -/
def expr (t : Translator) : Tree.Expr → Context → Run Typed.Expr
  | ⟨kind, pos⟩, ctx => located pos (exprKind t pos kind ctx)

def exprKind (t : Translator) (pos : Pos) : ExprKind → Context → Run Typed.Expr
  | .int value, _ => pure (.int value)
  | .float bits, _ => pure (.float bits)
  | .str value, _ => pure (.string value)
  | .bool value, _ => pure (.boolean value)
  | .none, _ => pure .null
  | .name id, ctx => nameNode t ctx id
  | .attr value name, ctx => attrNode t ctx ⟨value, expr t value⟩ name
  | .call func args keywords, ctx =>
    callNode t ctx pos (callee t ⟨func, expr t func⟩ func) (exprs t args) keywords
  | .binOp left op right, ctx => binOpNode t ctx op ⟨left, expr t left⟩ ⟨right, expr t right⟩
  | .unaryOp op operand, ctx => unaryNode ctx op ⟨operand, expr t operand⟩
  | .boolOp op values, ctx => boolOpNode ctx op (exprs t values)
  | .compare left ops comparators, ctx =>
    compareNode ctx ⟨left, expr t left⟩ ops (exprs t comparators)
  | .list elts, ctx => listNode ctx (exprs t elts)
  | .set elts, ctx => setNode ctx (exprs t elts)
  | .dict keys values, ctx => dictNode ctx (exprs t keys) (exprs t values)
  | .tuple elts, ctx => tupleNode ctx (exprs t elts)
  | .subscript value slice, ctx =>
    subscriptNode t ctx ⟨value, expr t value⟩ (deferredSlice t slice)
  | .listComp elt generators, ctx =>
    listCompNode t ctx ⟨elt, expr t elt⟩ (clauses t generators)
  | kind@(.setComp ..), _ => fail (.unsupported kind.describe)
  | kind@(.dictComp ..), _ => fail (.unsupported kind.describe)
  | kind@(.generatorExp ..), _ => fail (.unsupported kind.describe)
  | kind@(.lambda ..), _ => fail (.unsupported kind.describe)
  | kind@(.ifExp ..), _ => fail (.unsupported kind.describe)
  | kind@(.starred _), _ => fail (.unsupported kind.describe)

def exprs (t : Translator) : List Tree.Expr → List Deferred
  | [] => []
  | e :: es => ⟨e, expr t e⟩ :: exprs t es

def optional (t : Translator) : Option Tree.Expr → Option Deferred
  | some e => some ⟨e, expr t e⟩
  | none => none

/-- How `func` is called; `whole` is what translates it as a value. -/
def callee (t : Translator) (whole : Deferred) : Tree.Expr → Callee
  | ⟨.name id, _⟩ => .name id
  | ⟨.attr value name, _⟩ => .attr ⟨value, expr t value⟩ name
  | _ => .value whole

def deferredSlice (t : Translator) : Tree.Slice → DeferredSlice
  | .index value => .index ⟨value, expr t value⟩
  | .slice lower upper step => .slice (optional t lower) (optional t upper) step.isSome

/-- The form of the expression a loop runs over. -/
def iterated (t : Translator) : Tree.Expr → Iterated
  | ⟨.call ⟨.name id, _⟩ args [], _⟩ => .call id (exprs t args)
  | ⟨.call ⟨.attr value name, _⟩ [] [], _⟩ =>
    if name = "items" then .items ⟨value, expr t value⟩ else .other
  | _ => .other

def clause (t : Translator) : Tree.Comprehension → DeferredClause
  | ⟨target, iter, ifs⟩ => ⟨target, ⟨iter, expr t iter⟩, iterated t iter, exprs t ifs⟩

def clauses (t : Translator) : List Tree.Comprehension → List DeferredClause
  | [] => []
  | c :: cs => clause t c :: clauses t cs

end

end TreeTyper.Translate
