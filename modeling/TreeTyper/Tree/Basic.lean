import TreeTyper.Source
import TreeTyper.Tree.Operator

/-!
# The syntax tree

A module is a list of statements.  A statement or an expression is a kind with
the position at which it starts.  `describe` is the name of a kind in messages;
`isLiteral` says which expressions can initialise a constant.
-/

namespace TreeTyper.Tree

structure Arg where
  name : String
  pos : Pos
  deriving DecidableEq, Repr

mutual

structure Expr where
  kind : ExprKind
  pos : Pos

inductive ExprKind where
  | int (value : Int64)
  /-- A float by its bits. -/
  | float (bits : UInt64)
  | str (value : String)
  | bool (value : Bool)
  | none
  | name (id : String)
  | attr (value : Expr) (name : String)
  | call (func : Expr) (args : List Expr) (keywords : List Keyword)
  | binOp (left : Expr) (op : BinaryOperator) (right : Expr)
  | unaryOp (op : UnaryOperator) (operand : Expr)
  | boolOp (op : BooleanOperator) (values : List Expr)
  | compare (left : Expr) (ops : List ComparisonOperator) (comparators : List Expr)
  | list (elts : List Expr)
  | tuple (elts : List Expr)
  | set (elts : List Expr)
  | dict (keys values : List Expr)
  | subscript (value : Expr) (slice : Slice)
  | listComp (elt : Expr) (generators : List Comprehension)
  | setComp (elt : Expr) (generators : List Comprehension)
  | dictComp (key value : Expr) (generators : List Comprehension)
  | generatorExp (elt : Expr) (generators : List Comprehension)
  | lambda (args : Arguments) (body : Expr)
  | ifExp (test body orelse : Expr)
  | starred (value : Expr)

inductive Slice where
  | index (value : Expr)
  | slice (lower upper step : Option Expr)

/-- A keyword argument; one without a name expands a dictionary. -/
structure Keyword where
  arg : Option String
  value : Expr

structure Comprehension where
  target : Expr
  iter : Expr
  ifs : List Expr

/-- The parameter list of a definition or a lambda. -/
structure Arguments where
  args : List Arg
  vararg : Option Arg
  kwonlyargs : List Arg
  kwDefaults : List Expr
  kwarg : Option Arg
  defaults : List Expr

end

structure WithItem where
  context : Expr
  vars : Option Expr

structure Alias where
  name : String
  asname : Option String
  deriving DecidableEq, Repr

mutual

structure Stmt where
  kind : StmtKind
  pos : Pos

inductive StmtKind where
  | functionDef (definition : FunctionDef)
  | classDef (definition : ClassDef)
  | assign (targets : List Expr) (value : Expr)
  | augAssign (target : Expr) (op : BinaryOperator) (value : Expr)
  | expr (value : Expr)
  | ret (value : Option Expr)
  | ifElse (test : Expr) (body orelse : List Stmt)
  | whileLoop (test : Expr) (body orelse : List Stmt)
  | forLoop (target iter : Expr) (body orelse : List Stmt)
  | tryExcept (body : List Stmt) (handlers : List ExceptHandler) (orelse finalbody : List Stmt)
  | raise (exc cause : Option Expr)
  | withItems (items : List WithItem) (body : List Stmt)
  | importNames (names : List Alias)
  | importFrom (module : String) (names : List Alias)
  | globalNames (names : List String)
  | nonlocalNames (names : List String)
  | delete (targets : List Expr)
  | pass
  | breakLoop
  | continueLoop

structure FunctionDef where
  name : String
  args : Arguments
  body : List Stmt
  decorators : List Expr

structure ClassDef where
  name : String
  bases : List Expr
  body : List Stmt
  decorators : List Expr

structure ExceptHandler where
  type : Option Expr
  name : Option String
  body : List Stmt
  pos : Pos

end

structure Module where
  body : List Stmt

/-! ## Views -/

def Arguments.none : Arguments := ⟨[], .none, [], [], .none, []⟩

def StmtKind.describe : StmtKind → String
  | functionDef _ => "function definition"
  | classDef _ => "class definition"
  | assign .. => "assignment"
  | augAssign .. => "augmented assignment"
  | expr _ => "expression"
  | ret _ => "return"
  | ifElse .. => "if"
  | whileLoop .. => "while"
  | forLoop .. => "for"
  | tryExcept .. => "try"
  | raise .. => "raise"
  | withItems .. => "with"
  | importNames _ => "import"
  | importFrom .. => "from .. import"
  | globalNames _ => "global"
  | nonlocalNames _ => "nonlocal"
  | delete _ => "del"
  | pass => "pass"
  | breakLoop => "break"
  | continueLoop => "continue"

def ExprKind.describe : ExprKind → String
  | int _ => "int literal"
  | float _ => "float literal"
  | str _ => "string literal"
  | bool _ => "boolean literal"
  | none => "None"
  | name _ => "name"
  | attr .. => "attribute"
  | call .. => "call"
  | binOp .. => "binary operation"
  | unaryOp .. => "unary operation"
  | boolOp .. => "boolean operation"
  | compare .. => "comparison"
  | list _ => "list"
  | tuple _ => "tuple"
  | set _ => "set"
  | dict .. => "dict"
  | subscript .. => "subscript"
  | listComp .. => "list comprehension"
  | setComp .. => "set comprehension"
  | dictComp .. => "dict comprehension"
  | generatorExp .. => "generator expression"
  | lambda .. => "lambda"
  | ifExp .. => "conditional expression"
  | starred _ => "starred expression"

mutual

/-- Whether this is a literal, also through container literals. -/
def Expr.isLiteral : Expr → Bool
  | ⟨kind, _⟩ => kind.isLiteral

def ExprKind.isLiteral : ExprKind → Bool
  | .int _ | .float _ | .str _ | .bool _ | .none => true
  | .list elts => allLiteral elts
  | .tuple elts => allLiteral elts
  | .set elts => allLiteral elts
  | .dict keys values => allLiteral keys && allLiteral values
  | .unaryOp .minus ⟨.int _, _⟩ => true
  | .unaryOp .minus ⟨.float _, _⟩ => true
  | _ => false

def allLiteral : List Expr → Bool
  | [] => true
  | e :: es => e.isLiteral && allLiteral es

end

/-- The name that this expression is, if it is one. -/
def Expr.name? : Expr → Option String
  | ⟨.name id, _⟩ => some id
  | _ => none

end TreeTyper.Tree
