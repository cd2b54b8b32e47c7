/-!
# Operators of the syntax tree

Each kind of operator has a name, which the tree format uses, and a symbol,
which messages and the typed tree use.  `ofName?` finds the operator of a name.

    BinaryOperator.ofName? op.name = some op          (and for the other kinds)
-/

namespace TreeTyper.Tree

inductive BinaryOperator where
  | add | sub | mult | matMult | div | floorDiv | mod | pow
  | lShift | rShift | bitOr | bitXor | bitAnd
  deriving DecidableEq, Repr

inductive UnaryOperator where
  | not | minus | plus | invert
  deriving DecidableEq, Repr

inductive BooleanOperator where
  | and | or
  deriving DecidableEq, Repr

inductive ComparisonOperator where
  | eq | notEq | lt | ltE | gt | gtE | is | isNot | in | notIn
  deriving DecidableEq, Repr

namespace BinaryOperator

def all : List BinaryOperator :=
  [add, sub, mult, matMult, div, floorDiv, mod, pow, lShift, rShift, bitOr, bitXor, bitAnd]

def name : BinaryOperator → String
  | add => "Add"
  | sub => "Sub"
  | mult => "Mult"
  | matMult => "MatMult"
  | div => "Div"
  | floorDiv => "FloorDiv"
  | mod => "Mod"
  | pow => "Pow"
  | lShift => "LShift"
  | rShift => "RShift"
  | bitOr => "BitOr"
  | bitXor => "BitXor"
  | bitAnd => "BitAnd"

def symbol : BinaryOperator → String
  | add => "+"
  | sub => "-"
  | mult => "*"
  | matMult => "@"
  | div => "/"
  | floorDiv => "//"
  | mod => "%"
  | pow => "**"
  | lShift => "<<"
  | rShift => ">>"
  | bitOr => "|"
  | bitXor => "^"
  | bitAnd => "&"

def ofName? (s : String) : Option BinaryOperator := all.find? (·.name == s)

theorem ofName?_name (op : BinaryOperator) : ofName? op.name = some op := by
  cases op <;> rfl

end BinaryOperator

namespace UnaryOperator

def all : List UnaryOperator := [not, minus, plus, invert]

def name : UnaryOperator → String
  | not => "Not"
  | minus => "USub"
  | plus => "UAdd"
  | invert => "Invert"

def symbol : UnaryOperator → String
  | not => "not"
  | minus => "-"
  | plus => "+"
  | invert => "~"

def ofName? (s : String) : Option UnaryOperator := all.find? (·.name == s)

theorem ofName?_name (op : UnaryOperator) : ofName? op.name = some op := by
  cases op <;> rfl

end UnaryOperator

namespace BooleanOperator

def all : List BooleanOperator := [and, or]

def name : BooleanOperator → String
  | and => "And"
  | or => "Or"

def symbol : BooleanOperator → String
  | and => "and"
  | or => "or"

def ofName? (s : String) : Option BooleanOperator := all.find? (·.name == s)

theorem ofName?_name (op : BooleanOperator) : ofName? op.name = some op := by
  cases op <;> rfl

end BooleanOperator

namespace ComparisonOperator

def all : List ComparisonOperator :=
  [eq, notEq, lt, ltE, gt, gtE, is, isNot, .in, notIn]

def name : ComparisonOperator → String
  | eq => "Eq"
  | notEq => "NotEq"
  | lt => "Lt"
  | ltE => "LtE"
  | gt => "Gt"
  | gtE => "GtE"
  | is => "Is"
  | isNot => "IsNot"
  | .in => "In"
  | notIn => "NotIn"

def symbol : ComparisonOperator → String
  | eq => "=="
  | notEq => "!="
  | lt => "<"
  | ltE => "<="
  | gt => ">"
  | gtE => ">="
  | is => "is"
  | isNot => "is not"
  | .in => "in"
  | notIn => "not in"

def ofName? (s : String) : Option ComparisonOperator := all.find? (·.name == s)

/-- The comparisons that have a place in the typed tree. -/
def isOrdering : ComparisonOperator → Bool
  | eq | notEq | lt | ltE | gt | gtE => true
  | is | isNot | .in | notIn => false

theorem ofName?_name (op : ComparisonOperator) : ofName? op.name = some op := by
  cases op <;> rfl

end ComparisonOperator

end TreeTyper.Tree
