import TreeTyper.Proofs.Names

/-!
# What is written in a block

Whether the statements of a block return, at any depth, and whether its expressions
can be computed at all: a chain of comparisons has an operand after each of its
operators, and the least integer is not negated.  Expressions that are never
translated do not count.
-/

namespace TreeTyper.Tree

/-! ## Expressions -/

/-- The negation of the least integer. -/
def UnaryOperator.overflows : UnaryOperator → ExprKind → Bool
  | .minus, .int value => value = Int64.minValue
  | _, _ => false

mutual

/-- Whether no comparison in this expression lacks an operand and no negation overflows. -/
def Expr.faultless : Expr → Bool
  | ⟨kind, _⟩ => kind.faultless

def ExprKind.faultless : ExprKind → Bool
  | .attr value _ => value.faultless
  | .call func args _ => func.faultless && allFaultless args
  | .binOp left _ right => left.faultless && right.faultless
  | .unaryOp op operand => !op.overflows operand.kind && operand.faultless
  | .boolOp _ values => allFaultless values
  | .compare left ops comparators =>
    decide (ops.length ≤ comparators.length) && (left.faultless && allFaultless comparators)
  | .list elts => allFaultless elts
  | .tuple elts => allFaultless elts
  | .set elts => allFaultless elts
  | .dict keys values => allFaultless keys && allFaultless values
  | .subscript value slice => value.faultless && slice.faultless
  | .listComp elt generators => elt.faultless && clausesFaultless generators
  | _ => true

def allFaultless : List Expr → Bool
  | [] => true
  | e :: es => e.faultless && allFaultless es

def optionFaultless : Option Expr → Bool
  | some e => e.faultless
  | none => true

def Slice.faultless : Slice → Bool
  | .index value => value.faultless
  | .slice lower upper _ => optionFaultless lower && optionFaultless upper

def Comprehension.faultless : Comprehension → Bool
  | ⟨_, iter, ifs⟩ => iter.faultless && allFaultless ifs

def clausesFaultless : List Comprehension → Bool
  | [] => true
  | c :: cs => c.faultless && clausesFaultless cs

end

/-! ## Statements -/

mutual

def Stmt.faultless : Stmt → Bool
  | ⟨kind, _⟩ => kind.faultless

def StmtKind.faultless : StmtKind → Bool
  | .expr value => value.faultless
  | .assign targets value => allFaultless targets && value.faultless
  | .augAssign target _ value => target.faultless && value.faultless
  | .ret value => optionFaultless value
  | .ifElse test body orelse => test.faultless && (blockFaultless body && blockFaultless orelse)
  | .whileLoop test body _ => test.faultless && blockFaultless body
  | .forLoop _ iter body _ => iter.faultless && blockFaultless body
  | .tryExcept body handlers _ _ => blockFaultless body && handlersFaultless handlers
  | .raise exc _ => optionFaultless exc
  | .withItems items body => items.all (·.context.faultless) && blockFaultless body
  | _ => true

/-- Whether all expressions of a block are faultless. -/
def blockFaultless : List Stmt → Bool
  | [] => true
  | s :: rest => s.faultless && blockFaultless rest

def handlersFaultless : List ExceptHandler → Bool
  | [] => true
  | ⟨_, _, body, _⟩ :: rest => blockFaultless body && handlersFaultless rest

end

mutual

def Stmt.returns : Stmt → Bool
  | ⟨kind, _⟩ => kind.returns

def StmtKind.returns : StmtKind → Bool
  | .ret _ => true
  | .ifElse _ body orelse => blockReturns body || blockReturns orelse
  | .whileLoop _ body _ => blockReturns body
  | .forLoop _ _ body _ => blockReturns body
  | .tryExcept body handlers _ _ => blockReturns body || handlersReturn handlers
  | _ => false

/-- Whether there is a return in a block. -/
def blockReturns : List Stmt → Bool
  | [] => false
  | s :: rest => s.returns || blockReturns rest

def handlersReturn : List ExceptHandler → Bool
  | [] => false
  | ⟨_, _, body, _⟩ :: rest => blockReturns body || handlersReturn rest

end

/-! ## Lemmas -/

theorem sound_and {p : Prop} {a b : Bool} (sound : p → (a && b)) : (p → a) ∧ (p → b) :=
  ⟨fun h => (Bool.and_eq_true_iff.mp (sound h)).1, fun h => (Bool.and_eq_true_iff.mp (sound h)).2⟩

@[simp] theorem allFaultless_iff {es : List Expr} :
    allFaultless es = true ↔ ∀ e ∈ es, e.faultless = true := by
  induction es with
  | nil => simp [allFaultless]
  | cons e es ih => simp [allFaultless, ih]

@[simp] theorem clausesFaultless_iff {cs : List Comprehension} :
    clausesFaultless cs = true ↔ ∀ c ∈ cs, c.faultless = true := by
  induction cs with
  | nil => simp [clausesFaultless]
  | cons c cs ih => simp [clausesFaultless, ih]

@[simp] theorem blockFaultless_iff {body : List Stmt} :
    blockFaultless body = true ↔ ∀ s ∈ body, s.faultless = true := by
  induction body with
  | nil => simp [blockFaultless]
  | cons s rest ih => simp [blockFaultless, ih]

end TreeTyper.Tree
