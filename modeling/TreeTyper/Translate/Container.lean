import TreeTyper.Translate.Standard

/-!
# Literals of containers, subscripts, and operations on several operands

The elements of a list or a set are checked one by one against the type found so
far; keys and values of a dictionary take the join.  A tuple whose elements share
one type without holes is an array of fixed length.

A chain of comparisons is the conjunction of the comparisons of neighbours,
nested to the right.
-/

namespace TreeTyper.Translate

open Typed

/-! ## Containers -/

/-- The elements of a container, and their type after `elem`. -/
def elementNodes (ctx : Context) (container : String) (elem : Ty) :
    List Deferred → Run (List Expr × Ty)
  | [] => return ([], elem)
  | d :: ds => do
    let node ← d.run ctx
    let h := (← get).hierarchy
    walk (compatibleEnds h node.type elem)
    match compatible h node.type elem with
    | none => failAt d.source.pos (.mixedElements container node.type)
    | some elem => do
      let (nodes, elem) ← elementNodes ctx container elem ds
      return (node :: nodes, elem)

def listNode (ctx : Context) (elts : List Deferred) : Run Expr := do
  let (nodes, elem) ← elementNodes ctx "list" .hole elts
  return ⟨.list nodes, .list elem⟩

def setNode (ctx : Context) (elts : List Deferred) : Run Expr := do
  let (nodes, elem) ← elementNodes ctx "set" .hole elts
  return ⟨.set nodes, .set elem⟩

/-- The pairs of a dictionary, and the types of keys and values after `key` and `value`. -/
def pairNodes (ctx : Context) (key value : Ty) :
    List (Deferred × Deferred) → Run (List Pair × Ty × Ty)
  | [] => return ([], key, value)
  | (k, v) :: rest => do
    let keyNode ← k.run ctx
    let valueNode ← v.run ctx
    let h := (← get).hierarchy
    walk (unifyEnds h key keyNode.type)
    match unify h key keyNode.type with
    | none => failAt k.source.pos (.mixedKeys keyNode.type)
    | some key =>
      walk (unifyEnds h value valueNode.type)
      match unify h value valueNode.type with
      | none => failAt v.source.pos (.mixedValues valueNode.type)
      | some value => do
        let (pairs, key, value) ← pairNodes ctx key value rest
        return (⟨keyNode, valueNode⟩ :: pairs, key, value)

def dictNode (ctx : Context) (keys values : List Deferred) : Run Expr := do
  let (pairs, key, value) ← pairNodes ctx .hole .hole (keys.zip values)
  return ⟨.dictionary pairs, .dictionary key value⟩

/-- The type that all the given types can take, one after the other. -/
def sharedType (h : Hierarchy) (acc : Ty) : List Ty → Option Ty
  | [] => some acc
  | t :: ts => (compatible h acc t).bind fun acc => sharedType h acc ts

def sharedTypeEnds (h : Hierarchy) (acc : Ty) : List Ty → Bool
  | [] => true
  | t :: ts => compatibleEnds h acc t &&
    match compatible h acc t with
    | some acc => sharedTypeEnds h acc ts
    | none => true

/-- A tuple literal from its elements. -/
def tupleOf (h : Hierarchy) (nodes : List Expr) : Expr :=
  let other : Expr := ⟨.tuple nodes, .tuple (types nodes)⟩
  match sharedType h .hole (types nodes) with
  | some elem =>
    if nodes.isEmpty || elem.hasHoles then other else ⟨.array nodes, .array elem nodes.length⟩
  | none => other

def tupleNode (ctx : Context) (elts : List Deferred) : Run Expr := do
  let nodes ← runAll ctx elts
  let h := (← get).hierarchy
  walk (sharedTypeEnds h .hole (types nodes))
  return tupleOf h nodes

/-! ## Operations on several operands -/

/-- Conditions from left to right. -/
def testNodes (ctx : Context) : List Deferred → Run (List Expr)
  | [] => return []
  | d :: ds => do
    let node ← d.run ctx
    let test ← check (testable node)
    let tests ← testNodes ctx ds
    return test :: tests

def boolOpNode (ctx : Context) (op : Tree.BooleanOperator) (values : List Deferred) : Run Expr := do
  match ← testNodes ctx values with
  | [] => fail (.emptyOperation op.symbol)
  | first :: rest =>
    return rest.foldl (fun left right => ⟨.binaryOp op.symbol left right, .boolean⟩) first

/-- The comparisons of neighbours; `rest` holds the operands after `left` with their positions. -/
def comparisons (left : Expr) :
    List Tree.ComparisonOperator → List (Expr × Pos) → Run (List Expr)
  | [], _ => return []
  | _ :: _, [] => abort .missingComparator
  | op :: ops, (right, pos) :: rest => do
    if !op.isOrdering then failAt pos (.unsupportedComparison op.symbol)
    else
      located pos (check (confirmComparable left.type right.type))
      let nodes ← comparisons right ops rest
      return ⟨.comparison op.symbol left right, .boolean⟩ :: nodes

/-- The conjunction of some conditions, nested to the right. -/
def conjoin : List Expr → Option Expr
  | [] => none
  | [last] => some last
  | left :: rest => (conjoin rest).map (conjunction left)

def compareNode (ctx : Context) (left : Deferred) (ops : List Tree.ComparisonOperator)
    (comparators : List Deferred) : Run Expr := do
  let first ← left.run ctx
  let rest ← runAll ctx comparators
  let nodes ← comparisons first ops (rest.zip (comparators.map (·.source.pos)))
  match conjoin nodes with
  | some node => return node
  | none => fail .emptyComparison

def unaryNode (ctx : Context) (op : Tree.UnaryOperator) (operand : Deferred) : Run Expr :=
  match op with
  | .minus =>
    match operand.source.kind with
    | .int value => if value = Int64.minValue then abort .overflow else pure (.int (-value))
    | .float bits => pure (.float (bits ^^^ 0x8000000000000000))
    | _ => do
      let value ← operand.run ctx
      if value.type.isNumeric then return ⟨.unaryOp "-" value, value.type⟩
      else fail (.negated value.type)
  | .plus => do
    let value ← operand.run ctx
    if value.type.isNumeric then return value else fail (.unaryPlus value.type)
  | .not => do
    let value ← operand.run ctx
    let test ← check (testable value)
    return ⟨.unaryOp "not" test, .boolean⟩
  | .invert => fail (.unsupportedOperator op.symbol)

/-! ## Subscripts -/

/-- A subscript with the parts of its index still to be translated. -/
inductive DeferredSlice where
  | index (value : Deferred)
  | slice (lower upper : Option Deferred) (hasStep : Bool)

def subscriptNode (t : Translator) (ctx : Context) (value : Deferred) (slice : DeferredSlice) :
    Run Expr := do
  let sequence ← value.run ctx
  match slice with
  | .index index =>
    let node ← index.run ctx
    let h := (← get).hierarchy
    walk (indexTypeEnds h sequence.type node.type)
    let ty ← check (indexType h sequence.type node.type index.source)
    return ⟨.index sequence node, ty⟩
  | .slice lower upper hasStep =>
    let owner := sequence.type.head
    if hasStep then fail .sliceStep
    else if owner ≠ Ty.stringName ∧ owner ≠ "List" then fail (.notSliceable sequence.type)
    else
      let slicing (message : String) (bounds : List Deferred) : Run Expr := do
        let args ← runAll ctx bounds
        standardMethod t.setting.api ctx owner message sequence args
      match lower, upper with
      | some lo, some hi => slicing "slice" [lo, hi]
      | some lo, none => slicing "slice_from" [lo]
      | none, some hi => slicing "slice_to" [hi]
      | none, none => fail .wholeSlice

end TreeTyper.Translate
