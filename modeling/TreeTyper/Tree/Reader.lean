import TreeTyper.Json.Record
import TreeTyper.Json.Text
import TreeTyper.Tree.Basic

/-!
# Reading the JSON form of the syntax tree

A missing position is `0:0`.  Lists of keywords, decorators, handlers and the
like may be missing, and so may every part that is optional; all other fields
have to be there with the right kind of value.

The reader of a node is given the readers of the nodes inside it, so one level
of the tree is read at a time; `Expr.read?`, `Stmt.read?` and `Module.read?` tie
the levels together by the depth of the value.
-/

namespace TreeTyper

open Json

namespace Json

mutual

/-- The number of values around the innermost one, the innermost included. -/
def depth : Json → Nat
  | arr items => depthOfAll items + 1
  | obj fields => depthOfFields fields + 1
  | _ => 1

def depthOfAll : List Json → Nat
  | [] => 0
  | j :: js => max (depth j) (depthOfAll js)

def depthOfFields : List (String × Json) → Nat
  | [] => 0
  | (_, j) :: rest => max (depth j) (depthOfFields rest)

end

end Json

def Pos.read? (j : Json) : Option Pos := do
  let [line, col] ← record? ["line", "col"] j | none
  return ⟨← required word32? line, ← required word32? col⟩

/-- The position field of a node. -/
def Pos.field? : Option Json → Option Pos := defaulted ⟨0, 0⟩ Pos.read?

namespace Tree

def Arg.read? (j : Json) : Option Arg := do
  let [name, pos] ← record? ["name", "pos"] j | none
  return ⟨← required str? name, ← Pos.field? pos⟩

def Alias.read? (j : Json) : Option Alias := do
  let [name, asname] ← record? ["name", "asname"] j | none
  return ⟨← required str? name, ← optional str? asname⟩

/-! ## Expressions -/

section Expressions

variable (sub : Json → Option Expr)

/-- A list of expressions that may be missing. -/
def exprs? : Option Json → Option (List Expr) := defaulted [] (list? sub)

def Arguments.readWith (j : Json) : Option Arguments := do
  let [args, vararg, kwonlyargs, kwDefaults, kwarg, defaults] ←
    record? ["args", "vararg", "kwonlyargs", "kw_defaults", "kwarg", "defaults"] j | .none
  return ⟨← defaulted [] (list? Arg.read?) args, ← optional Arg.read? vararg,
    ← defaulted [] (list? Arg.read?) kwonlyargs, ← exprs? sub kwDefaults,
    ← optional Arg.read? kwarg, ← exprs? sub defaults⟩

def Keyword.readWith (j : Json) : Option Keyword := do
  let [arg, value] ← record? ["arg", "value"] j | none
  return ⟨← optional str? arg, ← required sub value⟩

def Comprehension.readWith (j : Json) : Option Comprehension := do
  let [target, iter, ifs] ← record? ["target", "iter", "ifs"] j | none
  return ⟨← required sub target, ← required sub iter, ← exprs? sub ifs⟩

def Slice.forms : List String := ["index", "slice"]

/-- The slice of a form, from the value that holds its fields. -/
def Slice.ofForm (form : String) (j : Json) : Option Slice :=
  match form with
  | "index" => do
    let [value] ← record? ["value"] j | none
    return .index (← required sub value)
  | "slice" => do
    let [lower, upper, step] ← record? ["lower", "upper", "step"] j | none
    return .slice (← optional sub lower) (← optional sub upper) (← optional sub step)
  | _ => none

/-- A slice is an object with a tag, or an array that begins with the tag. -/
def Slice.readWith : Json → Option Slice
  | .obj fields => do
    let form ← tagged? "node" Slice.forms fields
    Slice.ofForm sub form (.obj fields)
  | .arr (tag :: items) => do
    let form ← form? Slice.forms tag
    Slice.ofForm sub form (.arr items)
  | _ => none

def ExprKind.forms : List String :=
  ["int", "float", "str", "bool", "none", "name", "attribute", "call", "bin_op", "unary_op",
    "bool_op", "compare", "list", "tuple", "set", "dict", "subscript", "list_comp", "set_comp",
    "dict_comp", "generator_exp", "lambda", "if_exp", "starred"]

def ExprKind.readWith (fields : List (String × Json)) : Option ExprKind := do
  let form ← tagged? "node" ExprKind.forms fields
  match form with
  | "int" => do
    let [value] ← declared? ["value"] fields | .none
    return .int (← required int64? value)
  | "float" => do
    let [value] ← declared? ["value"] fields | .none
    return .float (← required float? value)
  | "str" => do
    let [value] ← declared? ["value"] fields | .none
    return .str (← required str? value)
  | "bool" => do
    let [value] ← declared? ["value"] fields | .none
    return .bool (← required bool? value)
  | "none" => return .none
  | "name" => do
    let [id] ← declared? ["id"] fields | .none
    return .name (← required str? id)
  | "attribute" => do
    let [value, member] ← declared? ["value", "attr"] fields | .none
    return .attr (← required sub value) (← required str? member)
  | "call" => do
    let [func, args, keywords] ← declared? ["func", "args", "keywords"] fields | .none
    return .call (← required sub func) (← exprs? sub args)
      (← defaulted [] (list? (Keyword.readWith sub)) keywords)
  | "bin_op" => do
    let [left, op, right] ← declared? ["left", "op", "right"] fields | .none
    return .binOp (← required sub left) (← required (named? BinaryOperator.ofName?) op)
      (← required sub right)
  | "unary_op" => do
    let [op, operand] ← declared? ["op", "operand"] fields | .none
    return .unaryOp (← required (named? UnaryOperator.ofName?) op) (← required sub operand)
  | "bool_op" => do
    let [op, values] ← declared? ["op", "values"] fields | .none
    return .boolOp (← required (named? BooleanOperator.ofName?) op) (← required (list? sub) values)
  | "compare" => do
    let [left, ops, comparators] ← declared? ["left", "ops", "comparators"] fields | .none
    return .compare (← required sub left)
      (← required (list? (named? ComparisonOperator.ofName?)) ops)
      (← required (list? sub) comparators)
  | "list" => do
    let [elts] ← declared? ["elts"] fields | .none
    return .list (← required (list? sub) elts)
  | "tuple" => do
    let [elts] ← declared? ["elts"] fields | .none
    return .tuple (← required (list? sub) elts)
  | "set" => do
    let [elts] ← declared? ["elts"] fields | .none
    return .set (← required (list? sub) elts)
  | "dict" => do
    let [keys, values] ← declared? ["keys", "values"] fields | .none
    return .dict (← required (list? sub) keys) (← required (list? sub) values)
  | "subscript" => do
    let [value, slice] ← declared? ["value", "slice"] fields | .none
    return .subscript (← required sub value) (← required (Slice.readWith sub) slice)
  | "list_comp" => do
    let [elt, generators] ← declared? ["elt", "generators"] fields | .none
    return .listComp (← required sub elt)
      (← required (list? (Comprehension.readWith sub)) generators)
  | "set_comp" => do
    let [elt, generators] ← declared? ["elt", "generators"] fields | .none
    return .setComp (← required sub elt)
      (← required (list? (Comprehension.readWith sub)) generators)
  | "dict_comp" => do
    let [key, value, generators] ← declared? ["key", "value", "generators"] fields | .none
    return .dictComp (← required sub key) (← required sub value)
      (← required (list? (Comprehension.readWith sub)) generators)
  | "generator_exp" => do
    let [elt, generators] ← declared? ["elt", "generators"] fields | .none
    return .generatorExp (← required sub elt)
      (← required (list? (Comprehension.readWith sub)) generators)
  | "lambda" => do
    let [args, body] ← declared? ["args", "body"] fields | .none
    return .lambda (← required (Arguments.readWith sub) args) (← required sub body)
  | "if_exp" => do
    let [test, body, orelse] ← declared? ["test", "body", "orelse"] fields | .none
    return .ifExp (← required sub test) (← required sub body) (← required sub orelse)
  | "starred" => do
    let [value] ← declared? ["value"] fields | .none
    return .starred (← required sub value)
  | _ => .none

/-- Reads an expression with `sub` for the expressions inside it. -/
def Expr.readWith : Json → Option Expr
  | .obj fields => do
    let [pos] ← declared? ["pos"] fields | none
    let pos ← Pos.field? pos
    return ⟨← ExprKind.readWith sub fields, pos⟩
  | _ => none

end Expressions

/-- Reads an expression whose nodes are at most `levels` deep. -/
def Expr.readAt : (levels : Nat) → Json → Option Expr
  | 0 => fun _ => none
  | levels + 1 => Expr.readWith (Expr.readAt levels)

def Expr.read? (j : Json) : Option Expr := Expr.readAt j.depth j

/-! ## Statements -/

section Statements

variable (expr : Json → Option Expr) (sub : Json → Option Stmt)

/-- A list of statements that may be missing. -/
def stmts? : Option Json → Option (List Stmt) := defaulted [] (list? sub)

def WithItem.readWith (j : Json) : Option WithItem := do
  let [context, vars] ← record? ["context_expr", "optional_vars"] j | none
  return ⟨← required expr context, ← optional expr vars⟩

def ExceptHandler.readWith (j : Json) : Option ExceptHandler := do
  let [type, name, body, pos] ← record? ["type", "name", "body", "pos"] j | none
  return ⟨← optional expr type, ← optional str? name, ← required (list? sub) body,
    ← Pos.field? pos⟩

def StmtKind.forms : List String :=
  ["function_def", "class_def", "assign", "aug_assign", "expr", "return", "if", "while", "for",
    "try", "raise", "with", "import", "import_from", "global", "nonlocal", "delete", "pass",
    "break", "continue"]

def StmtKind.readWith (fields : List (String × Json)) : Option StmtKind := do
  let form ← tagged? "node" StmtKind.forms fields
  match form with
  | "function_def" => do
    let [name, args, body, decorators] ←
      declared? ["name", "args", "body", "decorators"] fields | none
    return .functionDef ⟨← required str? name,
      ← defaulted Arguments.none (Arguments.readWith expr) args, ← required (list? sub) body,
      ← exprs? expr decorators⟩
  | "class_def" => do
    let [name, bases, body, decorators] ←
      declared? ["name", "bases", "body", "decorators"] fields | none
    return .classDef ⟨← required str? name, ← exprs? expr bases, ← required (list? sub) body,
      ← exprs? expr decorators⟩
  | "assign" => do
    let [targets, value] ← declared? ["targets", "value"] fields | none
    return .assign (← required (list? expr) targets) (← required expr value)
  | "aug_assign" => do
    let [target, op, value] ← declared? ["target", "op", "value"] fields | none
    return .augAssign (← required expr target) (← required (named? BinaryOperator.ofName?) op)
      (← required expr value)
  | "expr" => do
    let [value] ← declared? ["value"] fields | none
    return .expr (← required expr value)
  | "return" => do
    let [value] ← declared? ["value"] fields | none
    return .ret (← optional expr value)
  | "if" => do
    let [test, body, orelse] ← declared? ["test", "body", "orelse"] fields | none
    return .ifElse (← required expr test) (← required (list? sub) body) (← stmts? sub orelse)
  | "while" => do
    let [test, body, orelse] ← declared? ["test", "body", "orelse"] fields | none
    return .whileLoop (← required expr test) (← required (list? sub) body) (← stmts? sub orelse)
  | "for" => do
    let [target, iter, body, orelse] ← declared? ["target", "iter", "body", "orelse"] fields | none
    return .forLoop (← required expr target) (← required expr iter)
      (← required (list? sub) body) (← stmts? sub orelse)
  | "try" => do
    let [body, handlers, orelse, finalbody] ←
      declared? ["body", "handlers", "orelse", "finalbody"] fields | none
    return .tryExcept (← required (list? sub) body)
      (← defaulted [] (list? (ExceptHandler.readWith expr sub)) handlers)
      (← stmts? sub orelse) (← stmts? sub finalbody)
  | "raise" => do
    let [exc, cause] ← declared? ["exc", "cause"] fields | none
    return .raise (← optional expr exc) (← optional expr cause)
  | "with" => do
    let [items, body] ← declared? ["items", "body"] fields | none
    return .withItems (← required (list? (WithItem.readWith expr)) items)
      (← required (list? sub) body)
  | "import" => do
    let [names] ← declared? ["names"] fields | none
    return .importNames (← required (list? Alias.read?) names)
  | "import_from" => do
    let [module, names] ← declared? ["module", "names"] fields | none
    return .importFrom (← required str? module) (← required (list? Alias.read?) names)
  | "global" => do
    let [names] ← declared? ["names"] fields | none
    return .globalNames (← required (list? str?) names)
  | "nonlocal" => do
    let [names] ← declared? ["names"] fields | none
    return .nonlocalNames (← required (list? str?) names)
  | "delete" => do
    let [targets] ← declared? ["targets"] fields | none
    return .delete (← required (list? expr) targets)
  | "pass" => return .pass
  | "break" => return .breakLoop
  | "continue" => return .continueLoop
  | _ => none

/-- Reads a statement with `expr` and `sub` for the nodes inside it. -/
def Stmt.readWith : Json → Option Stmt
  | .obj fields => do
    let [pos] ← declared? ["pos"] fields | none
    let pos ← Pos.field? pos
    return ⟨← StmtKind.readWith expr sub fields, pos⟩
  | _ => none

end Statements

/-- Reads a statement whose nodes are at most `levels` deep. -/
def Stmt.readAt : (levels : Nat) → Json → Option Stmt
  | 0 => fun _ => none
  | levels + 1 => Stmt.readWith (Expr.readAt levels) (Stmt.readAt levels)

def Stmt.read? (j : Json) : Option Stmt := Stmt.readAt j.depth j

def Module.read? (j : Json) : Option Module := do
  let [body] ← record? ["body"] j | none
  return ⟨← required (list? (Stmt.readAt j.depth)) body⟩

/-! ## Texts -/

/-- A position is read from its declared fields only. -/
def posFocus : Focus := .parts [("line", .all), ("col", .all)] .nothing .all

/-- A statement is read from all its fields, which can belong to its form. -/
def stmtFocus : Focus := .parts [("pos", posFocus)] .all .all

def bodyFocus : Focus := .parts [] .all stmtFocus

/-- A module is read from its body only.  The statements inside those of the body are parts of
their forms and are looked at as a whole. -/
def Module.focus : Focus := .parts [("body", bodyFocus)] .nothing bodyFocus

/-- Reads a module from a text. -/
def Module.parse? (text : JsonText) (source : String) : Option Module :=
  (text.read Module.focus source).bind Module.read?

end Tree

end TreeTyper
