import TreeTyper.Tree.Basic

/-!
# Assembling trees by hand

Every node is built at `1:0`; `at` places it elsewhere.  The names are those of
the forms, with a `Stmt` or `Expr` result; parts that the helpers do not take are
empty.
-/

namespace TreeTyper.Tree.Build

def here : Pos := ⟨1, 0⟩

def expr (kind : ExprKind) : Expr := ⟨kind, here⟩

def stmt (kind : StmtKind) : Stmt := ⟨kind, here⟩

def placeExpr (e : Expr) (pos : Pos) : Expr := { e with pos }

def placeStmt (s : Stmt) (pos : Pos) : Stmt := { s with pos }

def params (names : List String) : Arguments :=
  { Arguments.none with args := names.map (⟨·, here⟩) }

/-! ## Expressions -/

def int (value : Int64) : Expr := expr (.int value)

def float (bits : UInt64) : Expr := expr (.float bits)

def string (value : String) : Expr := expr (.str value)

def boolean (value : Bool) : Expr := expr (.bool value)

def none : Expr := expr .none

def name (id : String) : Expr := expr (.name id)

def attr (value : Expr) (name : String) : Expr := expr (.attr value name)

def call (func : Expr) (args : List Expr) : Expr := expr (.call func args [])

/-- The call of a method. -/
def method (value : Expr) (message : String) (args : List Expr) : Expr :=
  call (attr value message) args

def callKeywords (func : Expr) (args : List Expr) (keywords : List (String × Expr)) : Expr :=
  expr (.call func args (keywords.map fun (arg, value) => ⟨some arg, value⟩))

def binOp (left : Expr) (op : BinaryOperator) (right : Expr) : Expr := expr (.binOp left op right)

def unary (op : UnaryOperator) (operand : Expr) : Expr := expr (.unaryOp op operand)

def boolOp (op : BooleanOperator) (values : List Expr) : Expr := expr (.boolOp op values)

/-- A chain of comparisons that starts with `left`. -/
def compare (left : Expr) (rest : List (ComparisonOperator × Expr)) : Expr :=
  expr (.compare left (rest.map (·.1)) (rest.map (·.2)))

def list (elts : List Expr) : Expr := expr (.list elts)

def tuple (elts : List Expr) : Expr := expr (.tuple elts)

def set (elts : List Expr) : Expr := expr (.set elts)

def dict (pairs : List (Expr × Expr)) : Expr := expr (.dict (pairs.map (·.1)) (pairs.map (·.2)))

def index (value i : Expr) : Expr := expr (.subscript value (.index i))

def slice (value : Expr) (lower upper : Option Expr) : Expr :=
  expr (.subscript value (.slice lower upper .none))

def listComp (elt target iter : Expr) (ifs : List Expr) : Expr :=
  expr (.listComp elt [⟨target, iter, ifs⟩])

def lambda (names : List String) (body : Expr) : Expr := expr (.lambda (params names) body)

/-! ## Statements -/

def exprStmt (value : Expr) : Stmt := stmt (.expr value)

def assign (target value : Expr) : Stmt := stmt (.assign [target] value)

def augAssign (target : Expr) (op : BinaryOperator) (value : Expr) : Stmt :=
  stmt (.augAssign target op value)

def ret (value : Option Expr) : Stmt := stmt (.ret value)

def ifElse (test : Expr) (body orelse : List Stmt) : Stmt := stmt (.ifElse test body orelse)

def whileLoop (test : Expr) (body : List Stmt) : Stmt := stmt (.whileLoop test body [])

def forLoop (target iter : Expr) (body : List Stmt) : Stmt := stmt (.forLoop target iter body [])

def functionDef (name : String) (names : List String) (body : List Stmt) : FunctionDef :=
  ⟨name, params names, body, []⟩

def define (name : String) (names : List String) (body : List Stmt) : Stmt :=
  stmt (.functionDef (functionDef name names body))

def classDef (id : String) (base : Option String) (body : List Stmt) : Stmt :=
  stmt (.classDef ⟨id, base.toList.map name, body, []⟩)

def importModule (module : String) : Stmt := stmt (.importNames [⟨module, .none⟩])

def tryExcept (body : List Stmt) (handlers : List ExceptHandler) : Stmt :=
  stmt (.tryExcept body handlers [] [])

def handler (exception instanceName : Option String) (body : List Stmt) : ExceptHandler :=
  ⟨exception.map name, instanceName, body, here⟩

def raise (exc : Expr) : Stmt := stmt (.raise (some exc) .none)

def withItem (context : Expr) (var : Option String) (body : List Stmt) : Stmt :=
  stmt (.withItems [⟨context, var.map name⟩] body)

def pass : Stmt := stmt .pass

def breakLoop : Stmt := stmt .breakLoop

def continueLoop : Stmt := stmt .continueLoop

end TreeTyper.Tree.Build
