import TreeTyper.Json.Basic
import TreeTyper.Tree.Basic

/-!
# The JSON form of the syntax tree

A statement or expression is an object: the name of its form under `node`, the
fields of the form and the position under `pos`.  Every field is written;
an absent part is null.
-/

namespace TreeTyper

def Pos.json (p : Pos) : Json :=
  .object [("line", .int p.line.toNat), ("col", .int p.col.toNat)]

namespace Tree

def Arg.json (a : Arg) : Json := .object [("name", .str a.name), ("pos", a.pos.json)]

/-- An object of the form `node`. -/
def node (form : String) (fields : List (String × Json)) : List (String × Json) :=
  ("node", .str form) :: fields

mutual

def Expr.json : Expr → Json
  | ⟨kind, pos⟩ => .object (("pos", pos.json) :: kind.fields)

def ExprKind.fields : ExprKind → List (String × Json)
  | .int value => node "int" [("value", .int value.toInt)]
  | .float bits => node "float" [("value", Json.ofFloat bits)]
  | .str value => node "str" [("value", .str value)]
  | .bool value => node "bool" [("value", .bool value)]
  | .none => node "none" []
  | .name id => node "name" [("id", .str id)]
  | .attr value name => node "attribute" [("value", value.json), ("attr", .str name)]
  | .call func args keywords =>
    node "call" [("func", func.json), ("args", .arr (exprsJson args)),
      ("keywords", .arr (keywordsJson keywords))]
  | .binOp left op right =>
    node "bin_op" [("left", left.json), ("op", .str op.name), ("right", right.json)]
  | .unaryOp op operand => node "unary_op" [("op", .str op.name), ("operand", operand.json)]
  | .boolOp op values => node "bool_op" [("op", .str op.name), ("values", .arr (exprsJson values))]
  | .compare left ops comparators =>
    node "compare" [("left", left.json), ("ops", .arr (ops.map fun op => .str op.name)),
      ("comparators", .arr (exprsJson comparators))]
  | .list elts => node "list" [("elts", .arr (exprsJson elts))]
  | .tuple elts => node "tuple" [("elts", .arr (exprsJson elts))]
  | .set elts => node "set" [("elts", .arr (exprsJson elts))]
  | .dict keys values =>
    node "dict" [("keys", .arr (exprsJson keys)), ("values", .arr (exprsJson values))]
  | .subscript value slice => node "subscript" [("value", value.json), ("slice", slice.json)]
  | .listComp elt generators =>
    node "list_comp" [("elt", elt.json), ("generators", .arr (comprehensionsJson generators))]
  | .setComp elt generators =>
    node "set_comp" [("elt", elt.json), ("generators", .arr (comprehensionsJson generators))]
  | .dictComp key value generators =>
    node "dict_comp" [("key", key.json), ("value", value.json),
      ("generators", .arr (comprehensionsJson generators))]
  | .generatorExp elt generators =>
    node "generator_exp" [("elt", elt.json), ("generators", .arr (comprehensionsJson generators))]
  | .lambda args body => node "lambda" [("args", args.json), ("body", body.json)]
  | .ifExp test body orelse =>
    node "if_exp" [("test", test.json), ("body", body.json), ("orelse", orelse.json)]
  | .starred value => node "starred" [("value", value.json)]

def exprsJson : List Expr → List Json
  | [] => []
  | e :: es => e.json :: exprsJson es

def optionJson : Option Expr → Json
  | some e => e.json
  | none => .null

def Slice.json : Slice → Json
  | .index value => .object (node "index" [("value", value.json)])
  | .slice lower upper step =>
    .object (node "slice" [("lower", optionJson lower), ("upper", optionJson upper),
      ("step", optionJson step)])

def Keyword.json : Keyword → Json
  | ⟨arg, value⟩ => .object [("arg", Json.ofOption .str arg), ("value", value.json)]

def keywordsJson : List Keyword → List Json
  | [] => []
  | k :: ks => k.json :: keywordsJson ks

def Comprehension.json : Comprehension → Json
  | ⟨target, iter, ifs⟩ =>
    .object [("target", target.json), ("iter", iter.json), ("ifs", .arr (exprsJson ifs))]

def comprehensionsJson : List Comprehension → List Json
  | [] => []
  | c :: cs => c.json :: comprehensionsJson cs

def Arguments.json : Arguments → Json
  | ⟨args, vararg, kwonlyargs, kwDefaults, kwarg, defaults⟩ =>
    .object [("args", .arr (args.map Arg.json)), ("vararg", Json.ofOption Arg.json vararg),
      ("kwonlyargs", .arr (kwonlyargs.map Arg.json)), ("kw_defaults", .arr (exprsJson kwDefaults)),
      ("kwarg", Json.ofOption Arg.json kwarg), ("defaults", .arr (exprsJson defaults))]

end

def WithItem.json (item : WithItem) : Json :=
  .object [("context_expr", item.context.json), ("optional_vars", optionJson item.vars)]

def Alias.json (a : Alias) : Json :=
  .object [("name", .str a.name), ("asname", Json.ofOption .str a.asname)]

mutual

def Stmt.json : Stmt → Json
  | ⟨kind, pos⟩ => .object (("pos", pos.json) :: kind.fields)

def StmtKind.fields : StmtKind → List (String × Json)
  | .functionDef definition => node "function_def" definition.fields
  | .classDef definition => node "class_def" definition.fields
  | .assign targets value =>
    node "assign" [("targets", .arr (exprsJson targets)), ("value", value.json)]
  | .augAssign target op value =>
    node "aug_assign" [("target", target.json), ("op", .str op.name), ("value", value.json)]
  | .expr value => node "expr" [("value", value.json)]
  | .ret value => node "return" [("value", optionJson value)]
  | .ifElse test body orelse =>
    node "if" [("test", test.json), ("body", .arr (stmtsJson body)),
      ("orelse", .arr (stmtsJson orelse))]
  | .whileLoop test body orelse =>
    node "while" [("test", test.json), ("body", .arr (stmtsJson body)),
      ("orelse", .arr (stmtsJson orelse))]
  | .forLoop target iter body orelse =>
    node "for" [("target", target.json), ("iter", iter.json), ("body", .arr (stmtsJson body)),
      ("orelse", .arr (stmtsJson orelse))]
  | .tryExcept body handlers orelse finalbody =>
    node "try" [("body", .arr (stmtsJson body)), ("handlers", .arr (handlersJson handlers)),
      ("orelse", .arr (stmtsJson orelse)), ("finalbody", .arr (stmtsJson finalbody))]
  | .raise exc cause => node "raise" [("exc", optionJson exc), ("cause", optionJson cause)]
  | .withItems items body =>
    node "with" [("items", .arr (items.map WithItem.json)), ("body", .arr (stmtsJson body))]
  | .importNames names => node "import" [("names", .arr (names.map Alias.json))]
  | .importFrom module names =>
    node "import_from" [("module", .str module), ("names", .arr (names.map Alias.json))]
  | .globalNames names => node "global" [("names", Json.ofStrings names)]
  | .nonlocalNames names => node "nonlocal" [("names", Json.ofStrings names)]
  | .delete targets => node "delete" [("targets", .arr (exprsJson targets))]
  | .pass => node "pass" []
  | .breakLoop => node "break" []
  | .continueLoop => node "continue" []

def FunctionDef.fields : FunctionDef → List (String × Json)
  | ⟨name, args, body, decorators⟩ =>
    [("name", .str name), ("args", args.json), ("body", .arr (stmtsJson body)),
      ("decorators", .arr (exprsJson decorators))]

def ClassDef.fields : ClassDef → List (String × Json)
  | ⟨name, bases, body, decorators⟩ =>
    [("name", .str name), ("bases", .arr (exprsJson bases)), ("body", .arr (stmtsJson body)),
      ("decorators", .arr (exprsJson decorators))]

def ExceptHandler.json : ExceptHandler → Json
  | ⟨type, name, body, pos⟩ =>
    .object [("type", optionJson type), ("name", Json.ofOption .str name),
      ("body", .arr (stmtsJson body)), ("pos", pos.json)]

def handlersJson : List ExceptHandler → List Json
  | [] => []
  | h :: hs => h.json :: handlersJson hs

def stmtsJson : List Stmt → List Json
  | [] => []
  | s :: ss => s.json :: stmtsJson ss

end

def Module.json (m : Module) : Json := .object [("body", .arr (stmtsJson m.body))]

end Tree

end TreeTyper
