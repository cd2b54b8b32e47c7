import TreeTyper.Ty.Fill

/-!
# Types of binary operators

`binaryResult?` is the type of a binary operation, if its operands support the
operator.  A result of type `Int` or `Float` is computed by a primitive
operation; every other one is a standard method found in the operator table.

Two containers of one head may be combined when filling the holes of each from
the other gives the same type.
-/

namespace TreeTyper.Ty

def isSupportedOperator (op : String) : Bool :=
  op ∈ ["+", "-", "*", "/", "**", "%", "|", "&", "^"]

/-- Whether a result is computed by a primitive operation. -/
def isPrimitive (t : Ty) : Bool := t.isAtom intName || t.isAtom floatName

/-- The type of arithmetic: `Int` on two integers, `Float` on other numbers. -/
def arithmetic? (left right : Ty) : Option Ty :=
  if left.isAtom intName && right.isAtom intName then some int
  else if left.isNumeric && right.isNumeric then some float
  else none

/-- The common type of two containers with one head that fill each other. -/
def merged? (headName : String) (left right : Ty) : Option Ty :=
  if left.head = headName ∧ right.head = headName ∧ fill left right = fill right left then
    some (fill left right)
  else none

def isRepeatable : Ty → Bool
  | list _ => true
  | t => t.isAtom stringName

/-- The type of repeating a list or a string. -/
def repeated? (left right : Ty) : Option Ty :=
  if left.isAtom intName && right.isRepeatable then some right
  else if right.isAtom intName && left.isRepeatable then some left
  else none

/-- The type of a remainder, or of formatting a string. -/
def remainder? (left right : Ty) : Option Ty :=
  if left.isAtom intName && right.isAtom intName then some int
  else if left.isAtom stringName && right.isAtom stringName then some string
  else
    match right with
    | array elem _ =>
      if left.isAtom stringName && elem.isAtom stringName then some string else none
    | _ => none

def concatenated? (left right : Ty) : Option Ty :=
  if left.isAtom stringName && right.isAtom stringName then some string
  else merged? "List" left right

def binaryResult? (op : String) (left right : Ty) : Option Ty :=
  match op with
  | "+" => (arithmetic? left right).or (concatenated? left right)
  | "-" => (arithmetic? left right).or (merged? "Set" left right)
  | "*" => (arithmetic? left right).or (repeated? left right)
  | "/" => arithmetic? left right
  | "**" => arithmetic? left right
  | "%" => remainder? left right
  | "|" => merged? "Set" left right
  | "&" => merged? "Set" left right
  | "^" => merged? "Set" left right
  | _ => none

end TreeTyper.Ty
