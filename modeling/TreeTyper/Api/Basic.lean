import TreeTyper.Table
import TreeTyper.Ty.Parse
import TreeTyper.Ty.Render

/-!
# Tables of the standard functions, methods and operators

The tables say which functions, methods and operators of a source text are
known and what each becomes: an `Expansion`, or one per number of arguments.
Signatures type the expansions; the last type of a written signature is the
return type, and a star before a lone parameter lets it take any number of
arguments.
-/

namespace TreeTyper

/-- What a known call becomes. -/
inductive Expansion where
  /-- A standard function. -/
  | call (space function : String)
  /-- A standard method of a type; the first argument is the receiver. -/
  | method (owner message : String)
  /-- A standard method whose receiver is the second of two arguments. -/
  | swapped (owner message : String)
  /-- The length of a sized value. -/
  | length
  /-- The compilation of a regular expression. -/
  | regex
  deriving DecidableEq, Repr

inductive ApiEntry where
  | fixed (expansion : Expansion)
  | byArity (expansions : Table Nat Expansion)
  deriving DecidableEq, Repr

/-- The expansion for a number of arguments, the receiver not counted. -/
def ApiEntry.select? (e : ApiEntry) (arity : Nat) : Option Expansion :=
  match e with
  | fixed expansion => some expansion
  | byArity expansions => expansions.find? arity

def ApiEntry.expansions : ApiEntry → List Expansion
  | fixed expansion => [expansion]
  | byArity expansions => expansions.values

/-! ## Signatures -/

inductive ApiParams where
  | fixed (params : List Ty)
  /-- One parameter for every argument. -/
  | repeated (param : Ty)
  deriving DecidableEq, Repr

structure ApiSignature where
  params : ApiParams
  ret : Ty
  deriving DecidableEq, Repr

def ApiParams.toList : ApiParams → List Ty
  | fixed params => params
  | repeated param => [param]

def ApiParams.isVariadic : ApiParams → Bool
  | fixed _ => false
  | repeated _ => true

namespace ApiSignature

open Ty

/-- The text after a leading star. -/
def starred? (text : String) : Option String :=
  match text.toList with
  | '*' :: rest => some (String.ofList rest)
  | _ => none

/-- Reads parameters none of which may have a star. -/
def parseParams : List String → Except ParseError (List Ty)
  | [] => .ok []
  | text :: rest =>
    match starred? text with
    | some _ => .error ⟨text, .variadicNotAlone⟩
    | none => do
      let ty ← Ty.parse text
      let tys ← parseParams rest
      return ty :: tys

/-- Reads a signature from the texts of its types, the return type last. -/
def parse (texts : List String) : Except ParseError ApiSignature :=
  match texts.getLast? with
  | none => .error ⟨"", .emptySignature⟩
  | some ret => do
    let params ← match texts.dropLast with
      | [text] =>
        match starred? text with
        | some rest => (Ty.parse rest).map .repeated
        | none => (parseParams [text]).map .fixed
      | texts => (parseParams texts).map .fixed
    return ⟨params, ← Ty.parse ret⟩

/-- The signature as parameters, an arrow and the return type. -/
def describe (s : ApiSignature) : String :=
  let params := match s.params with
    | .fixed params => params.map Ty.render
    | .repeated param => ["*" ++ param.render]
  String.intercalate " " (params ++ ["->", s.ret.render])

end ApiSignature

/-! ## Tables -/

abbrev EntryTable := Table String (Table String ApiEntry)

structure ApiTables where
  /-- The functions by namespace and name. -/
  functions : EntryTable
  /-- The methods by the head of the receiver's type and by name. -/
  methods : EntryTable
  /-- The messages of operators by the head of a type and the symbol. -/
  operators : Table String (Table String String)
  /-- The signatures by namespace or head and by canonical name. -/
  signatures : Table String (Table String ApiSignature)
  deriving DecidableEq, Repr

namespace ApiTables

/-- The namespace of the functions that need no import. -/
def globalSpace : String := "global"

def empty : ApiTables := ⟨Table.empty, Table.empty, Table.empty, Table.empty⟩

instance : Inhabited ApiTables := ⟨empty⟩

/-! ### Looking up -/

/-- The value under an owner and a name. -/
def lookup {α : Type} (t : Table String (Table String α)) (owner name : String) : Option α :=
  (t.find? owner).bind (·.find? name)

def function? (api : ApiTables) (space name : String) : Option ApiEntry :=
  lookup api.functions space name

def method? (api : ApiTables) (owner name : String) : Option ApiEntry :=
  lookup api.methods owner name

def operator? (api : ApiTables) (owner symbol : String) : Option String :=
  lookup api.operators owner symbol

def signature? (api : ApiTables) (owner name : String) : Option ApiSignature :=
  lookup api.signatures owner name

/-- Whether a name is that of an importable namespace. -/
def isLibrary (api : ApiTables) (space : String) : Bool :=
  space ≠ globalSpace && api.functions.contains space

/-- Whether values with this head have standard methods. -/
def hasMethods (api : ApiTables) (owner : String) : Bool := api.methods.contains owner

def libraries (api : ApiTables) : List String := api.functions.keys.filter (· ≠ globalSpace)

/-- The signature of an expansion as text, empty if it has none. -/
def describeExpansion (api : ApiTables) : Expansion → String
  | .call space function => ((api.signature? space function).map (·.describe)).getD ""
  | .method owner message | .swapped owner message =>
    ((api.signature? owner message).map (·.describe)).getD ""
  | .length => "-> Int"
  | .regex => "String -> Regexp"

/-- A line with the name and the signature of every expansion under an owner. -/
def describe (api : ApiTables) (table : EntryTable) (owner : String) : String :=
  let entries := ((table.find? owner).map (·.entries)).getD []
  let lines := entries.flatMap fun (name, entry) =>
    entry.expansions.map fun e => "  " ++ name ++ " " ++ api.describeExpansion e
  String.intercalate "\n" lines

/-! ### Adding -/

/-- Puts a value under an owner and a name. -/
def put {α : Type} (t : Table String (Table String α)) (owner name : String) (value : α) :
    Table String (Table String α) :=
  t.insert owner (((t.find? owner).getD Table.empty).insert name value)

def addFunction (api : ApiTables) (space name : String) (entry : ApiEntry) : ApiTables :=
  { api with functions := put api.functions space name entry }

def addMethod (api : ApiTables) (owner name : String) (entry : ApiEntry) : ApiTables :=
  { api with methods := put api.methods owner name entry }

def addOperator (api : ApiTables) (owner symbol message : String) : ApiTables :=
  { api with operators := put api.operators owner symbol message }

def addSignature (api : ApiTables) (owner name : String) (s : ApiSignature) : ApiTables :=
  { api with signatures := put api.signatures owner name s }

/-! ### Lemmas -/

theorem lookup_put_self {α : Type} (t : Table String (Table String α)) (owner name : String)
    (value : α) : lookup (put t owner name value) owner name = some value := by
  simp [lookup, put]

theorem lookup_put_of_ne {α : Type} (t : Table String (Table String α)) {o o' n n' : String}
    (h : ¬ (o' = o ∧ n' = n)) (value : α) : lookup (put t o n value) o' n' = lookup t o' n' := by
  unfold lookup put
  by_cases ho : o' = o
  · subst ho
    have hn : n' ≠ n := fun hn => h ⟨rfl, hn⟩
    simp only [Table.find?_insert_self, Option.bind_some, Table.find?_insert_of_ne hn]
    cases t.find? o' <;> simp
  · rw [Table.find?_insert_of_ne ho]

end ApiTables

end TreeTyper
