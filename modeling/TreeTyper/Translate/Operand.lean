import TreeTyper.Failure.Cause
import TreeTyper.Typing.Call
import TreeTyper.Typing.Operator

/-!
# Nodes over translated operands

Conditions, binary operations, comparisons, patterns and subscripts, from
operands that are already typed.  None of these touches the tables of a run.
-/

namespace TreeTyper.Translate

open Typed

/-! ## Conditions -/

def greater (left right : Expr) : Expr := ⟨.comparison ">" left right, .boolean⟩

def lengthOf (node : Expr) : Expr := ⟨.standardMethodCall node "length" [], .int⟩

/-- A condition as a `Boolean`: a sized value is tested for elements, a number for being positive,
a match for being there. -/
def testable (node : Expr) : Except Cause Expr :=
  if node.type.isAtom Ty.booleanName then .ok node
  else if node.type.isSized then .ok (greater (lengthOf node) (.int 0))
  else if node.type.isNumeric then .ok (greater node (.int 0))
  else if node.type.isAtom Ty.regexpMatchName then
    .ok ⟨.standardMethodCall node "has_match" [], .boolean⟩
  else .error (.notTestable node.type)

def conjunction (left right : Expr) : Expr := ⟨.binaryOp "and" left right, .boolean⟩

/-! ## Operations -/

/-- The right operand of formatting a string: a lone string counts as an array of one. -/
def formatArgument (op : String) (arg : Expr) : Expr :=
  if op = "%" ∧ arg.type.isAtom Ty.stringName then ⟨.array [arg], .array .string 1⟩ else arg

/-- A binary operation: primitive if its result is a number, and else a standard method of the
left operand, or of the right one for an integer times a sequence. -/
def binary (api : ApiTables) (op : String) (left right : Expr) : Except Cause Expr :=
  if !Ty.isSupportedOperator op then .error (.unsupportedOperator op)
  else
    match Ty.binaryResult? op left.type right.type with
    | none => .error (.operandTypes op left.type right.type)
    | some result =>
      if result.isPrimitive then .ok ⟨.binaryOp op left right, result⟩
      else
        let (receiver, arg) :=
          if op = "*" ∧ left.type.isAtom Ty.intName then (right, left) else (left, right)
        match api.operator? receiver.type.head op with
        | none => .error (.noOperator receiver.type.head op)
        | some message =>
          .ok ⟨.standardMethodCall receiver message [formatArgument op arg], result⟩

/-- Two operands can be compared if both are integers, floats or strings. -/
def confirmComparable (left right : Ty) : Except Cause Unit :=
  match left with
  | .atom name =>
    if left = right ∧ name ∈ Cause.comparableNames then .ok ()
    else .error (.notComparable left right)
  | _ => .error (.notComparable left right)

/-! ## Patterns -/

/-- A regular expression from a pattern: a literal is compiled on the spot. -/
def toRegexp (pattern : Expr) : Except Cause Expr :=
  match pattern.kind with
  | .string value => .ok ⟨.regex value, .atom Ty.regexpName⟩
  | _ =>
    if pattern.type.isAtom Ty.regexpName then .ok pattern
    else if pattern.type.isAtom Ty.stringName then
      .ok ⟨.standardCall "regexp" "compile" [pattern], .atom Ty.regexpName⟩
    else .error (.pattern pattern.type)

/-! ## Subscripts -/

/-- The literal integer that an expression is. -/
def literalIndex? (source : Tree.Expr) : Option Int :=
  match source.kind with
  | .int value => some value.toInt
  | _ => none

/-- The element of a list at an integer, which a negative one does not have. -/
def elementAt? (elems : List Ty) (i : Int) : Option Ty :=
  match i with
  | .ofNat n => elems[n]?
  | .negSucc _ => none

/-- The type read by a subscript. -/
def indexType (h : Hierarchy) (sequence index : Ty) (source : Tree.Expr) : Except Cause Ty :=
  let atInteger (elem : Ty) : Except Cause Ty :=
    if index.isAtom Ty.intName then .ok elem else .error (.nonIntIndex sequence index)
  match sequence with
  | .list elem => atInteger elem
  | .array elem _ => atInteger elem
  | .dictionary key value =>
    match compatible h index key with
    | some _ => .ok value
    | none => .error (.keyIndex key sequence index)
  | .tuple elems =>
    match literalIndex? source with
    | none => .error (.tupleIndexForm sequence)
    | some i =>
      match elementAt? elems i with
      | some elem => .ok elem
      | none => .error (.tupleIndexRange sequence elems.length)
  | other =>
    if other.isAtom Ty.stringName then atInteger .string else .error (.notIndexable other)

def indexTypeEnds (h : Hierarchy) (sequence index : Ty) : Bool :=
  match sequence with
  | .dictionary key _ => compatibleEnds h index key
  | _ => true

/-- The type of a slot after a value is stored in it: a slot with holes takes the join, any other
one has to accept the value and stays. -/
def store (h : Hierarchy) (slot value : Ty) : Option Ty :=
  if slot.hasHoles then unify h slot value else (compatible h value slot).map fun _ => slot

def storeEnds (h : Hierarchy) (slot value : Ty) : Bool :=
  if slot.hasHoles then unifyEnds h slot value else compatibleEnds h value slot

/-- The type of a container after a value is stored at an index. -/
def storeAt (h : Hierarchy) (sequence index value : Ty) : Except Cause Ty :=
  let stored (slot : Ty) : Except Cause Ty :=
    match store h slot value with
    | some t => .ok t
    | none => .error (.storedValue value sequence)
  match sequence with
  | .list elem =>
    if !index.isAtom Ty.intName then .error (.storeIndex sequence index)
    else (stored elem).map .list
  | .array elem n =>
    if !index.isAtom Ty.intName then .error (.storeIndex sequence index)
    else (stored elem).map (.array · n)
  | .dictionary key slot =>
    match store h key index with
    | none => .error (.storeKey index sequence)
    | some k => (stored slot).map (.dictionary k ·)
  | .tuple _ => .error (.immutable sequence)
  | other =>
    if other.isAtom Ty.stringName then .error .immutableString else .error (.notStorable other)

def storeAtEnds (h : Hierarchy) (sequence index value : Ty) : Bool :=
  match sequence with
  | .list elem => !index.isAtom Ty.intName || storeEnds h elem value
  | .array elem _ => !index.isAtom Ty.intName || storeEnds h elem value
  | .dictionary key slot =>
    storeEnds h key index && ((store h key index).isNone || storeEnds h slot value)
  | _ => true

end TreeTyper.Translate
