import TreeTyper.Api.Basic
import TreeTyper.Failure.Cause
import TreeTyper.Scope

/-!
# Runs of the translator

A run changes the tables of one module and may stop: at a failure of the module,
whose position is that of the innermost node that has one, or at a fault, which
is an operation outside its domain.  The state is kept also when a run stops, and
`inScope` closes the scope it opened in either case.
-/

namespace TreeTyper.Translate

/-- A change of the phase of a definition. -/
inductive Progress where
  /-- From unresolved to in progress. -/
  | began (key : DefKey)
  /-- From in progress to resolved. -/
  | finished (key : DefKey)
  deriving DecidableEq, Repr

/-- The tables of a module that a run reads and changes. -/
structure State where
  scopes : Scopes
  hierarchy : Hierarchy
  cells : Cells
  definitions : Definitions
  /-- The imported namespaces that were used, in the order of their first use. -/
  dependencies : List String
  /-- The changes of phases so far, which are logged for whoever debugs a run. -/
  progress : List Progress
  /-- The calls of definitions that were answered so far, the latest first, logged likewise. -/
  calls : List Call
  deriving Inhabited

def State.empty : State :=
  ⟨Scopes.empty, Hierarchy.empty, Cells.empty, Definitions.empty, [], [], []⟩

/-- An operation outside its domain. -/
inductive Fault where
  | deadScope (id : ScopeId)
  | notUnresolved (key : DefKey)
  | undeclaredClass (name : String)
  /-- A chain with more comparison operators than operands to compare. -/
  | missingComparator
  /-- The negation of the least 64-bit integer. -/
  | overflow
  /-- More bodies inside each other than there are definitions. -/
  | depth
  /-- A walk along bases that return to where it was. -/
  | endlessWalk
  deriving DecidableEq, Repr

/-- Why a run stops. -/
inductive Stop where
  | failure (cause : Cause) (location : Option Pos)
  | fault (fault : Fault)
  deriving DecidableEq, Repr

abbrev Run (α : Type) := ExceptT Stop (StateM State) α

section Runs

variable {α : Type}

def fail (cause : Cause) : Run α := throw (.failure cause none)

def failAt (pos : Pos) (cause : Cause) : Run α := throw (.failure cause (some pos))

def abort (fault : Fault) : Run α := throw (.fault fault)

/-- Attaches a position to a stop that has none. -/
def Stop.locate (pos : Pos) : Stop → Stop
  | failure cause location => failure cause (some (location.getD pos))
  | fault f => fault f

/-- A run whose failures are at `pos` unless they are inside of it. -/
def located (pos : Pos) (act : Run α) : Run α :=
  ExceptT.mk fun s =>
    match act.run s with
    | (.ok a, s) => (.ok a, s)
    | (.error stop, s) => (.error (stop.locate pos), s)

/-- A computation that fails for a cause. -/
def check : Except Cause α → Run α
  | .ok a => pure a
  | .error cause => fail cause

/-- Goes on if the walks along the bases that come next end. -/
def walk (ends : Bool) : Run Unit := if ends then return () else abort .endlessWalk

/-! ## Scopes -/

def requireAlive (id : ScopeId) : Run Unit := do
  let s ← get
  if s.scopes.isAlive id then return () else abort (.deadScope id)

/-- The type of a name, looked up outwards from a scope. -/
def lookup (id : ScopeId) (name : String) : Run (Option Ty) := do
  requireAlive id
  return (← get).scopes.lookup id name

def define (id : ScopeId) (name : String) (ty : Ty) : Run Unit := do
  requireAlive id
  modify fun s => { s with scopes := s.scopes.define id name ty }

def assign (id : ScopeId) (name : String) (ty : Ty) : Run Unit := do
  requireAlive id
  modify fun s => { s with scopes := s.scopes.assign id name ty }

/-- Runs `act` in a new scope inside `parent`, which is closed when `act` ends. -/
def inScope (parent : ScopeId) (bindings : List (String × Ty)) (act : ScopeId → Run α) : Run α :=
  ExceptT.mk fun s =>
    let opened := s.scopes.child parent bindings
    let result := (act opened.2).run { s with scopes := opened.1 }
    (result.1, { result.2 with scopes := result.2.scopes.discard s.scopes.size })

/-! ## Cells -/

def signature (cell : CellId) : Run Signature := return (← get).cells.get cell

def setSignature (cell : CellId) (s : Signature) : Run Unit :=
  modify fun st => { st with cells := st.cells.set cell s }

/-- Records a use of an imported namespace. -/
def useDependency (space : String) : Run Unit :=
  modify fun s =>
    if space ∈ s.dependencies then s
    else { s with dependencies := s.dependencies ++ [space] }

end Runs

end TreeTyper.Translate
