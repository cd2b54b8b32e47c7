import TreeTyper.Translate.Context
import TreeTyper.Translate.Operand

/-!
# Calls of the standard functions and methods

A known call is expanded over its translated arguments, which have to match the
signature of what it becomes.  A call may fill holes of the receiver's type; then
the variable or attribute that the receiver came from takes the new type
(`refine`).
-/

namespace TreeTyper.Translate

open Typed

/-! ## Refinement -/

/-- Gives an attribute that a class sees a new type. -/
def refineAttribute (className name : String) (ty : Ty) : Run Unit := do
  walk ((← get).hierarchy.attributeEnds className name)
  modify fun s =>
    match s.hierarchy.attribute? className name with
    | some (owner, _) =>
      { s with hierarchy := s.hierarchy.updateAttribute owner name ty false }
    | none => s

/-- Gives a node a new type, and the variable or attribute it was read from too. -/
def refine (ctx : Context) (node : Expr) (ty : Ty) : Run Expr := do
  match node.kind with
  | .localVar name => assign ctx.scope name ty
  | .instanceVar name =>
    match ctx.className? with
    | some className => refineAttribute className name ty
    | none => pure ()
  | .attr object name => refineAttribute object.type.head name ty
  | _ => pure ()
  return { node with type := ty }

/-! ## Expansion -/

def signatureOf (api : ApiTables) (owner name : String) : Except Cause ApiSignature :=
  match api.signature? owner name with
  | some s => .ok s
  | none => .error (.missingSignature owner name)

/-- A string used as a receiver of the regular expression methods is compiled first. -/
def receiverFor (owner : String) (receiver : Expr) : Except Cause Expr :=
  if owner = Ty.regexpName ∧ receiver.type.isAtom Ty.stringName then toRegexp receiver
  else .ok receiver

/-- The call of a standard method, typed by the signatures of `owner`. -/
def standardMethod (api : ApiTables) (ctx : Context) (owner message : String) (receiver : Expr)
    (args : List Expr) : Run Expr := do
  let receiver ← check (receiverFor owner receiver)
  if receiver.type.head ≠ owner then fail (.receiver owner message receiver.type)
  else
    let s ← check (signatureOf api owner message)
    let h := (← get).hierarchy
    walk (matchSignatureEnds h s s!"{owner}#{message}" (some receiver.type) (types args))
    let found ← check
      (matchSignature h s s!"{owner}#{message}" (some receiver.type) (types args))
    let receiver ← match found.refined with
      | some ty => refine ctx receiver ty
      | none => pure receiver
    return ⟨.standardMethodCall receiver message args, found.ret⟩

/-- The call of a standard function. -/
def standardCall (api : ApiTables) (space function name : String) (args : List Expr) :
    Run Expr := do
  let s ← check (signatureOf api space function)
  let h := (← get).hierarchy
  walk (matchSignatureEnds h s name none (types args))
  let found ← check (matchSignature h s name none (types args))
  return ⟨.standardCall space function args, found.ret⟩

/-- Expands a known call over its arguments; for a method the receiver comes first. -/
def expand (api : ApiTables) (ctx : Context) (expansion : Expansion) (name : String)
    (nodes : List Expr) : Run Expr :=
  match expansion with
  | .call space function => standardCall api space function name nodes
  | .method owner message =>
    match nodes with
    | receiver :: args => standardMethod api ctx owner message receiver args
    | [] => fail (.arity name 0)
  | .swapped owner message =>
    match nodes with
    | [arg, receiver] => standardMethod api ctx owner message receiver [arg]
    | nodes => fail (.arity name (nodes.length - 1))
  | .length =>
    match nodes with
    | [receiver] =>
      if receiver.type.isSized then pure (lengthOf receiver)
      else fail (.notSized name receiver.type)
    | nodes => fail (.arity name nodes.length)
  | .regex =>
    match nodes with
    | [pattern] => check (toRegexp pattern)
    | nodes => fail (.arity name nodes.length)

/-- The expansion of an entry for a number of arguments. -/
def select (entry : ApiEntry) (name : String) (arity : Nat) : Except Cause Expansion :=
  match entry.select? arity, entry with
  | some expansion, _ => .ok expansion
  | none, .byArity expansions => .error (.argumentCount name expansions.keys arity)
  | none, .fixed _ => .error (.arity name arity)

/-! ## Unknown members -/

/-- The members known on values of a type. -/
def knownMembers (api : ApiTables) (h : Hierarchy) (ty : Ty) : KnownMembers :=
  if api.hasMethods ty.head then .standard ty.head (api.describe api.methods ty.head)
  else if h.isClass ty.head then .ofClass ty.head ((h.methods ty.head).map (·.1))
  else .nothing

def unknownAttribute (api : ApiTables) (h : Hierarchy) (ty : Ty) (attr : String) : Cause :=
  .unknownAttribute ty attr (knownMembers api h ty)

end TreeTyper.Translate
