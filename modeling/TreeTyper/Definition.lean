import TreeTyper.Tree.Basic
import TreeTyper.Typed.Basic

/-!
# Definitions and their phases

A function or a method body is translated when the first call reaches it.  Until
then its definition is unresolved and holds the syntax; while its body is being
translated it is in progress; after that it is resolved and holds the typed
routine.  The signatures of functions are known here by their cells, those of
methods by the class hierarchy.
-/

namespace TreeTyper

/-- The key of one function or method body. -/
inductive DefKey where
  | function (name : String)
  /-- A method, by the class whose body implements it. -/
  | method (className name : String)
  deriving DecidableEq, Repr

namespace DefKey

def name : DefKey → String
  | function name => name
  | method _ name => name

def className? : DefKey → Option String
  | function _ => none
  | method className _ => some className

def isConstructor : DefKey → Bool
  | function _ => false
  | method _ name => name == Hierarchy.constructorName

def render : DefKey → String
  | function name => name
  | method className name => className ++ "#" ++ name

/-- The names that make up a key, the name of the class first. -/
def path : DefKey → List String
  | function name => [name]
  | method className name => [className, name]

instance : LT DefKey := ⟨fun a b => a.path < b.path⟩

instance : DecidableLT DefKey := fun a b => inferInstanceAs (Decidable (a.path < b.path))

end DefKey

inductive DefState where
  | unresolved (definition : Tree.FunctionDef)
  | inProgress
  | resolved (routine : Typed.Routine)

inductive Phase where
  | unresolved
  | inProgress
  | resolved
  deriving DecidableEq, Repr

def DefState.phase : DefState → Phase
  | unresolved _ => .unresolved
  | inProgress => .inProgress
  | resolved _ => .resolved

/-- A call of a definition that was answered. -/
structure Call where
  key : DefKey
  cell : CellId
  args : List Ty
  ret : Ty
  /-- What the cell then held. -/
  type : Ty
  /-- The phase in which the call found the definition. -/
  phase : Phase
  deriving DecidableEq, Repr

/-- The state of every definition, and the signature cells of the functions. -/
structure Definitions where
  states : Table DefKey DefState
  functions : Table String CellId

namespace Definitions

def empty : Definitions := ⟨Table.empty, Table.empty⟩

instance : Inhabited Definitions := ⟨empty⟩

/-- Declares a function and makes the cell of its signature. -/
def declareFunction (d : Definitions) (cells : Cells) (definition : Tree.FunctionDef) :
    Definitions × Cells × CellId :=
  let (cells, cell) := cells.alloc (Signature.placeholder definition.args.args.length)
  let states := d.states.insert (.function definition.name) (.unresolved definition)
  (⟨states, d.functions.insert definition.name cell⟩, cells, cell)

def declareMethod (d : Definitions) (className : String) (definition : Tree.FunctionDef) :
    Definitions :=
  { d with states := d.states.insert (.method className definition.name) (.unresolved definition) }

def function? (d : Definitions) (name : String) : Option CellId := d.functions.find? name

def isFunction (d : Definitions) (name : String) : Bool := d.functions.contains name

def isDeclared (d : Definitions) (key : DefKey) : Bool := d.states.contains key

def phase? (d : Definitions) (key : DefKey) : Option Phase := (d.states.find? key).map (·.phase)

/-- Moves an unresolved definition to the phase in progress and gives its syntax. -/
def begin? (d : Definitions) (key : DefKey) : Option (Tree.FunctionDef × Definitions) :=
  match d.states.find? key with
  | some (.unresolved definition) =>
    some (definition, { d with states := d.states.insert key .inProgress })
  | _ => none

def finish (d : Definitions) (key : DefKey) (routine : Typed.Routine) : Definitions :=
  { d with states := d.states.insert key (.resolved routine) }

/-- Takes a finished definition out. -/
def takeResolved? (d : Definitions) (key : DefKey) : Option (Typed.Routine × Definitions) :=
  match d.states.find? key with
  | some (.resolved routine) => some (routine, { d with states := d.states.erase key })
  | _ => none

/-- The number of declared definitions. -/
def size (d : Definitions) : Nat := d.states.size

/-! ## Lemmas -/

theorem begin?_isSome_iff (d : Definitions) (key : DefKey) :
    (d.begin? key).isSome = true ↔ d.phase? key = some .unresolved := by
  unfold begin? phase?
  cases h : d.states.find? key with
  | none => simp
  | some s => cases s <;> simp [DefState.phase]

end Definitions

end TreeTyper
