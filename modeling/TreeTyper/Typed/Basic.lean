import TreeTyper.Hierarchy

/-!
# The typed tree

What a module becomes: expressions with their types, statements,
definitions whose parameters and return types are known, and the constants and
library namespaces that a module uses.

What follows from other parts is not stored: an assignment has the type of its
value, a return statement too, every other statement is `Void`; a comprehension
with a test is a `filter_map` and one without a `map`.
-/

namespace TreeTyper.Typed

/-- A variable bound by a loop. -/
structure Binder where
  name : String
  type : Ty
  deriving DecidableEq, Repr

/-- The variables bound on each round of a loop. -/
inductive Iterators where
  | single (iterator : Binder)
  | withIndex (index iterator : Binder)
  | withItems (key value : Binder)
  | zip (iterators : List Binder)
  deriving DecidableEq, Repr

/-- The bound variables in order. -/
def Iterators.binders : Iterators → List Binder
  | single b => [b]
  | withIndex i b => [i, b]
  | withItems k v => [k, v]
  | zip bs => bs

/-! ## Expressions -/

mutual

structure Expr where
  kind : ExprKind
  type : Ty

inductive ExprKind where
  | int (value : Int64)
  | float (bits : UInt64)
  | string (value : String)
  | boolean (value : Bool)
  | null
  /-- A compiled regular expression. -/
  | regex (value : String)
  | localVar (name : String)
  | this
  | typename (name : String)
  /-- An attribute of the receiver inside a method body. -/
  | instanceVar (name : String)
  | attr (object : Expr) (name : String)
  | index (sequence index : Expr)
  | call (function : Expr) (args : List Expr)
  | methodCall (receiver : Expr) (message : String) (args : List Expr)
  | thisMethodCall (message : String) (args : List Expr)
  | standardCall (space function : String) (args : List Expr)
  | standardMethodCall (receiver : Expr) (message : String) (args : List Expr)
  | newInstance (className : String) (params : List Expr)
  | binaryOp (op : String) (left right : Expr)
  | unaryOp (op : String) (value : Expr)
  | comparison (op : String) (left right : Expr)
  | list (elements : List Expr)
  | set (elements : List Expr)
  | tuple (elements : List Expr)
  | array (elements : List Expr)
  | dictionary (pairs : List Pair)
  /-- A list comprehension. -/
  | iterate (sequence : Sequence) (iterators : Iterators) (test : Option Expr) (block : Expr)

structure Pair where
  key : Expr
  value : Expr

/-- What a loop iterates over. -/
inductive Sequence where
  | single (sequence : Expr)
  | withIndex (sequence : Expr)
  | withItems (sequence : Expr)
  | zip (sequences : List Expr)

end

namespace Expr

def int (value : Int64) : Expr := ⟨.int value, .int⟩

def float (bits : UInt64) : Expr := ⟨.float bits, .float⟩

def string (value : String) : Expr := ⟨.string value, .string⟩

def boolean (value : Bool) : Expr := ⟨.boolean value, .boolean⟩

def null : Expr := ⟨.null, .void⟩

def localVar (name : String) (type : Ty) : Expr := ⟨.localVar name, type⟩

def typename (name : String) : Expr := ⟨.typename name, .atom name⟩

end Expr

def Binder.node (b : Binder) : Expr := .localVar b.name b.type

/-- The types of some nodes. -/
def types (nodes : List Expr) : List Ty := nodes.map (·.type)

/-! ## Statements -/

mutual

inductive Stmt where
  | expr (e : Expr)
  | localAssignment (name : String) (value : Expr)
  | instanceAssignment (name : String) (value : Expr)
  | attrAssignment (target value : Expr)
  | indexAssignment (sequence index value : Expr)
  /-- A return; an implicit one is in tail position. -/
  | ret (isImplicit : Bool) (value : Expr)
  | ifElse (test : Expr) (block : List Stmt) (otherwise : Otherwise)
  | whileLoop (test : Expr) (block : List Stmt)
  | forEach (sequence : Sequence) (iterators : Iterators) (block : List Stmt)
  | forRange (start stop step : Expr) (index : String) (block : List Stmt)
  | tryExcept (block : List Stmt) (handlers : List Handler)
  | throw (exception : String) (value : Expr)
  | breakLoop
  | continueLoop

/-- What follows when the test of a conditional fails. -/
inductive Otherwise where
  | nothing
  | elseIf (test : Expr) (block : List Stmt) (otherwise : Otherwise)
  | block (block : List Stmt)

structure Handler where
  exception : String
  instanceName : Option String
  block : List Stmt

end

def Stmt.type : Stmt → Ty
  | expr e => e.type
  | ret _ value => value.type
  | _ => .void

/-! ## Definitions -/

inductive RoutineForm where
  | function
  | method (className : String) (isPublic : Bool)
  | constructor (className : String)
  deriving DecidableEq, Repr

/-- A finished function, method or constructor. -/
structure Routine where
  form : RoutineForm
  name : String
  params : List String
  block : List Stmt
  type : Ty
  returns : Ty

structure ClassDefinition where
  name : String
  base : Option String
  attributes : List Attribute
  methods : List Routine
  constructor : Option Routine

inductive Definition where
  | routine (r : Routine)
  | classDef (c : ClassDefinition)
  /-- A custom exception with its custom base. -/
  | exception (name : String) (base : Option String)

structure Constant where
  name : String
  init : Expr

structure Module where
  /-- The library namespaces that are used, in the order of their first use. -/
  dependencies : List String
  constants : List Constant
  definitions : List Definition
  main : List Stmt

end TreeTyper.Typed
