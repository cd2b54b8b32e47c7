import TreeTyper.Api.Basic
import TreeTyper.Toml.Document

/-!
# Overrides of the tables

A document of overrides adds or replaces functions, methods and operators:

    [functions.math.sqrt]             [methods.String.title]           [operators.List]
    function = "square_root"          message = "capitalize"           "+" = "concat"
    signature = ["Number", "Float"]   signature = ["String"]

An override can also be written as the array of its fields in order, the trailing
ones of which may be left out.

What a call becomes has to have a signature, in the tables or in the document; a
signature in the document takes the place of one in the tables.  Functions come
first, then methods, then operators, each in the order of their owners and names,
and the first one that is refused decides the error.
-/

namespace TreeTyper

structure FunctionOverride where
  /-- The namespace of the standard function; that of the call if absent. -/
  space : Option String
  function : String
  signature : Option (List String)
  deriving DecidableEq, Repr

structure MethodOverride where
  /-- The type that has the standard method; that of the receiver if absent. -/
  owner : Option String
  message : String
  /-- Whether receiver and argument change places. -/
  swapped : Bool
  signature : Option (List String)
  deriving DecidableEq, Repr

structure Overrides where
  functions : Table String (Table String FunctionOverride)
  methods : Table String (Table String MethodOverride)
  operators : Table String (Table String String)
  deriving DecidableEq, Repr

/-- Why overrides are refused. -/
inductive OverrideError where
  | signature (target : String) (error : Ty.ParseError)
  | missingSignature (target : String)
  deriving DecidableEq, Repr

def OverrideError.message : OverrideError → String
  | signature target error => s!"bad signature for {target}: {error.message}"
  | missingSignature target => target ++ " has no signature; add `signature = [...]`"

namespace Overrides

open ApiTables (put)

def empty : Overrides := ⟨Table.empty, Table.empty, Table.empty⟩

/-! ## Reading -/

def text? : Toml.Value → Option String
  | .text s => some s
  | _ => none

def bool? : Toml.Value → Option Bool
  | .bool b => some b
  | _ => none

def texts? : Toml.Value → Option (List String)
  | .array items => items.mapM text?
  | _ => none

/-- A field that may be absent. -/
def optional {α : Type} (read : Toml.Value → Option α) : Option Toml.Value → Option (Option α)
  | none => some none
  | some v => (read v).map some

/-- The declared fields of a record under a header, in order; there are no others. -/
def declared? (names : List String) (entries : List (String × Toml.Value)) :
    Option (List (Option Toml.Value)) :=
  if entries.all (·.1 ∈ names) then
    some (names.map fun name => (entries.find? (·.1 == name)).map (·.2))
  else none

/-- The declared fields of a record written as an array; what follows them is not looked at. -/
def positional? (names : List String) : Toml.Value → Option (List (Option Toml.Value))
  | .array items => some (names.zipIdx.map fun (_, i) => items[i]?)
  | _ => none

def functionFields : List String := ["namespace", "function", "signature"]

def functionOverride? (fields : List (Option Toml.Value)) : Option FunctionOverride := do
  let [space, function, signature] := fields | none
  return ⟨← optional text? space, ← function.bind text?, ← optional texts? signature⟩

def methodFields : List String := ["type", "message", "swapped", "signature"]

def methodOverride? (fields : List (Option Toml.Value)) : Option MethodOverride := do
  let [owner, message, swapped, signature] := fields | none
  return ⟨← optional text? owner, ← message.bind text?, (← optional bool? swapped).getD false,
    ← optional texts? signature⟩

def operators? : List (String × Toml.Value) → Option (List (String × String))
  | [] => some []
  | (symbol, v) :: rest => do
    let message ← text? v
    let pairs ← operators? rest
    return (symbol, message) :: pairs

/-- The groups of overrides. -/
def groups : List String := ["functions", "methods", "operators"]

def addFunction? (o : Overrides) (space name : String) (fields : List (Option Toml.Value)) :
    Option Overrides :=
  (functionOverride? fields).map fun f => { o with functions := put o.functions space name f }

def addMethod? (o : Overrides) (owner name : String) (fields : List (Option Toml.Value)) :
    Option Overrides :=
  (methodOverride? fields).map fun m => { o with methods := put o.methods owner name m }

/-- The overrides with those of one section. -/
def addSection? (o : Overrides) (s : Toml.Section) : Option Overrides :=
  match s.path with
  | ["functions", space, name] => do
    o.addFunction? space name (← declared? functionFields s.entries)
  | ["functions", space] =>
    s.entries.foldlM (fun o (name, v) => do
      o.addFunction? space name (← positional? functionFields v)) o
  | ["methods", owner, name] => do
    o.addMethod? owner name (← declared? methodFields s.entries)
  | ["methods", owner] =>
    s.entries.foldlM (fun o (name, v) => do
      o.addMethod? owner name (← positional? methodFields v)) o
  | ["operators", owner] =>
    (operators? s.entries).map fun pairs =>
      { o with operators := o.operators.insert owner (Table.ofList pairs) }
  | [] => if s.entries.isEmpty then some o else none
  | [group] => if group ∈ groups ∧ s.entries.isEmpty then some o else none
  | _ => none

def addSections? (o : Overrides) : List Toml.Section → Option Overrides
  | [] => some o
  | s :: rest => do
    let o ← o.addSection? s
    o.addSections? rest

/-- Reads a document of overrides. -/
def parse? (text : String) : Option Overrides := do
  let d ← Toml.read? text
  empty.addSections? d.sections

/-! ## Applying -/

/-- Enters the signature given for a target, and requires that the target then has one. -/
def giveSignature (api : ApiTables) (owner name target : String)
    (signature : Option (List String)) : Except OverrideError ApiTables := do
  let api ← match signature with
    | none => pure api
    | some texts =>
      match ApiSignature.parse texts with
      | .ok s => pure (api.addSignature owner name s)
      | .error e => throw (.signature target e)
  if (api.signature? owner name).isSome then return api
  else throw (.missingSignature target)

def applyFunction (api : ApiTables) (space name : String) (o : FunctionOverride) :
    Except OverrideError ApiTables := do
  let owner := o.space.getD space
  let api ← giveSignature api owner o.function s!"{owner}:{o.function}" o.signature
  return api.addFunction space name (.fixed (.call owner o.function))

def applyMethod (api : ApiTables) (head name : String) (o : MethodOverride) :
    Except OverrideError ApiTables := do
  let owner := o.owner.getD head
  let api ← giveSignature api owner o.message s!"{owner}#{o.message}" o.signature
  let expansion := if o.swapped then .swapped owner o.message else .method owner o.message
  return api.addMethod head name (.fixed expansion)

def applyOperator (api : ApiTables) (owner symbol message : String) :
    Except OverrideError ApiTables := do
  let api ← giveSignature api owner message s!"{owner}#{message}" none
  return api.addOperator owner symbol message

/-- The cells of a table of tables, in order, with their owners and names. -/
def cells {α : Type} (t : Table String (Table String α)) : List (String × String × α) :=
  t.entries.flatMap fun (owner, inner) => inner.entries.map fun (name, a) => (owner, name, a)

/-- The tables with some overrides. -/
def applyTo (o : Overrides) (api : ApiTables) : Except OverrideError ApiTables := do
  let api ← (cells o.functions).foldlM (fun api (space, name, f) => applyFunction api space name f)
    api
  let api ← (cells o.methods).foldlM (fun api (head, name, m) => applyMethod api head name m) api
  (cells o.operators).foldlM (fun api (owner, symbol, m) => applyOperator api owner symbol m) api

end Overrides

end TreeTyper
