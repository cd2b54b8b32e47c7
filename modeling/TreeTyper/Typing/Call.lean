import TreeTyper.Api.Basic
import TreeTyper.Failure.Cause
import TreeTyper.Typing.Compatible
import TreeTyper.Ty.Fill

/-!
# Matching arguments against signatures

`matchSignature` types a call of a standard function or method.  Placeholders
are bound from the receiver; one that is not bound there, or only to a hole, is
bound by the first argument that meets it, and a binding with holes is filled
by later arguments.  The result has the return type under the final bindings and
the receiver's type, if the arguments filled holes of it.

`matchParams` types a call of a definition: a parameter of which nothing is
known takes the argument's type, any other one has to accept it.
-/

namespace TreeTyper

/-- The outcome of matching a standard signature. -/
structure SignatureMatch where
  ret : Ty
  /-- The receiver's type, if its holes were filled. -/
  refined : Option Ty
  deriving DecidableEq, Repr

/-- Compatibility, or the failure to go from one type to the other. -/
def expectCompatible (h : Hierarchy) (source target : Ty) (what : String) : Except Cause Ty :=
  match compatible h source target with
  | some t => .ok t
  | none => .error (.incompatible what source target)

/-- Matches argument `i` against a parameter and gives the bindings after it. -/
def matchArgument (h : Hierarchy) (name : String) (b : Bindings) (i : Nat) (param arg : Ty) :
    Except Cause Bindings :=
  match param with
  | .placeholder p =>
    match b.get? p with
    | none | some .hole => .ok (b.bind p arg)
    | some bound => do
      let merged ← expectCompatible h arg bound s!"{name} can't convert arg {i}"
      return if bound.hasHoles then b.bind p (bound.fill merged) else b
  | param =>
    let expected := param.substitute b
    match compatible h arg expected with
    | some _ => .ok b
    | none => .error (.unexpectedArgument name expected arg)

/-- Matches the arguments from number `i` on. -/
def matchArguments (h : Hierarchy) (name : String) (b : Bindings) (i : Nat) :
    List Ty → List Ty → Except Cause Bindings
  | param :: params, arg :: args => do
    let b ← matchArgument h name b i param arg
    matchArguments h name b (i + 1) params args
  | _, _ => .ok b

/-- Whether matching an argument answers: all walks along the bases that it takes end. -/
def matchArgumentEnds (h : Hierarchy) (b : Bindings) (param arg : Ty) : Bool :=
  match param with
  | .placeholder p =>
    match b.get? p with
    | none | some .hole => true
    | some bound => compatibleEnds h arg bound
  | param => compatibleEnds h arg (param.substitute b)

def matchArgumentsEnds (h : Hierarchy) (name : String) (b : Bindings) (i : Nat) :
    List Ty → List Ty → Bool
  | param :: params, arg :: args => matchArgumentEnds h b param arg &&
    match matchArgument h name b i param arg with
    | .ok b => matchArgumentsEnds h name b (i + 1) params args
    | .error _ => true
  | _, _ => true

/-- The parameters for a number of arguments. -/
def ApiParams.forCount (count : Nat) : ApiParams → List Ty
  | fixed params => params
  | repeated param => List.replicate count param

def matchSignature (h : Hierarchy) (s : ApiSignature) (name : String) (receiver : Option Ty)
    (args : List Ty) : Except Cause SignatureMatch := do
  let params := s.params.forCount args.length
  if args.length ≠ params.length then
    throw (.argumentCount name [params.length] args.length)
  let start := (receiver.map Bindings.ofReceiver).getD Bindings.empty
  let b ← matchArguments h name start 0 params args
  let refined := receiver.bind fun r =>
    let filled := r.fill (b.receiverShape r)
    if r.hasHoles ∧ filled ≠ r then some filled else none
  return ⟨s.ret.substitute b, refined⟩

def matchSignatureEnds (h : Hierarchy) (s : ApiSignature) (name : String) (receiver : Option Ty)
    (args : List Ty) : Bool :=
  let params := s.params.forCount args.length
  let start := (receiver.map Bindings.ofReceiver).getD Bindings.empty
  args.length != params.length || matchArgumentsEnds h name start 0 params args

/-- Matches the arguments of a definition from number `i` on. -/
def matchParamsFrom (h : Hierarchy) (name : String) (i : Nat) :
    List Ty → List Ty → Except Cause (List Ty)
  | param :: params, arg :: args => do
    let t ← if param = .hole then .ok arg
      else expectCompatible h arg param s!"can't convert {name} arg {i}"
    let ts ← matchParamsFrom h name (i + 1) params args
    return t :: ts
  | _, _ => .ok []

/-- The parameter types after a call with the given arguments. -/
def matchParams (h : Hierarchy) (params args : List Ty) (name : String) :
    Except Cause (List Ty) :=
  if params.length ≠ args.length then .error (.argumentCount name [params.length] args.length)
  else matchParamsFrom h name 0 params args

def matchParamsFromEnds (h : Hierarchy) : List Ty → List Ty → Bool
  | param :: params, arg :: args =>
    if param = .hole then matchParamsFromEnds h params args
    else compatibleEnds h arg param &&
      ((compatible h arg param).isNone || matchParamsFromEnds h params args)
  | _, _ => true

def matchParamsEnds (h : Hierarchy) (params args : List Ty) : Bool :=
  params.length != args.length || matchParamsFromEnds h params args

end TreeTyper
