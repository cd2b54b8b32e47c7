import TreeTyper.Api.Basic

/-!
# The standard tables

The known functions of the global namespace and of the libraries `math` and
`re`, the methods of the builtin types, the operators that become methods, and
the signatures of everything they expand to.
-/

namespace TreeTyper.ApiTables

open Ty

/-- Groups of named values by owner, as a table of tables. -/
def grouped {α : Type} (groups : List (String × List (String × α))) :
    Table String (Table String α) :=
  Table.ofList (groups.map fun (owner, entries) => (owner, Table.ofList entries))

def call (space function : String) : ApiEntry := .fixed (.call space function)

def method (owner message : String) : ApiEntry := .fixed (.method owner message)

def standardFunctions : EntryTable := grouped [
  ("global", [
    ("exit", call "global" "exit"),
    ("float", call "global" "to_float"),
    ("input", call "io" "read"),
    ("int", call "global" "to_int"),
    ("len", .fixed .length),
    ("print", call "io" "display"),
    ("str", call "global" "to_string")]),
  ("math", [
    ("cos", call "math" "cos"),
    ("log", .byArity (Table.ofList [(1, .call "math" "ln"), (2, .call "math" "log")])),
    ("sin", call "math" "sin"),
    ("sqrt", call "math" "sqrt"),
    ("tan", call "math" "tan")]),
  ("re", [
    ("compile", .fixed .regex),
    ("escape", call "regexp" "escape"),
    ("match", method "Regexp" "match"),
    ("sub", method "Regexp" "replace")])]

def standardMethods : EntryTable := grouped [
  ("Array", [
    ("count", method "Array" "count"),
    ("index", method "Array" "index")]),
  ("Dictionary", [
    ("keys", method "Dictionary" "keys"),
    ("values", method "Dictionary" "values")]),
  ("List", [
    ("append", method "List" "push"),
    ("insert", .byArity (Table.ofList [(1, .method "List" "insert"),
      (2, .method "List" "insert_at")])),
    ("pop", method "List" "pop"),
    ("remove", method "List" "remove")]),
  ("Regexp", [
    ("match", method "Regexp" "match"),
    ("sub", method "Regexp" "replace")]),
  ("RegexpMatch", [
    ("group", method "RegexpMatch" "group")]),
  ("Set", [
    ("add", method "Set" "add"),
    ("intersection", method "Set" "intersection"),
    ("remove", method "Set" "remove"),
    ("union", method "Set" "union")]),
  ("String", [
    ("find", method "String" "find"),
    ("join", .fixed (.swapped "List" "join")),
    ("lower", method "String" "to_lower"),
    ("split", method "String" "split"),
    ("upper", method "String" "to_upper")]),
  ("Tuple", [])]

def standardOperators : Table String (Table String String) := grouped [
  ("List", [("*", "repeat"), ("+", "push_many")]),
  ("Set", [("&", "intersection"), ("-", "diff"), ("^", "symmetric_diff"), ("|", "union")]),
  ("String", [("%", "c_format"), ("*", "repeat"), ("+", "concat")])]

/-- A signature with the given parameters. -/
def takes (params : List Ty) (ret : Ty) : ApiSignature := ⟨.fixed params, ret⟩

def element : Ty := .placeholder .element

def key : Ty := .placeholder .key

def value : Ty := .placeholder .value

def regexp : Ty := .atom regexpName

def standardSignatures : Table String (Table String ApiSignature) := grouped [
  ("Array", [
    ("count", takes [element] int),
    ("index", takes [element] int),
    ("length", takes [] int)]),
  ("Dictionary", [
    ("keys", takes [] (list key)),
    ("length", takes [] int),
    ("values", takes [] (list value))]),
  ("List", [
    ("insert", takes [element] void),
    ("insert_at", takes [element, int] void),
    ("join", takes [string] string),
    ("length", takes [] int),
    ("pop", takes [] element),
    ("push", takes [element] void),
    ("push_many", takes [list element] (list element)),
    ("remove", takes [element] void),
    ("repeat", takes [int] (list element)),
    ("slice", takes [int, int] (list element)),
    ("slice_from", takes [int] (list element)),
    ("slice_to", takes [int] (list element))]),
  ("Regexp", [
    ("match", takes [string] (.atom regexpMatchName)),
    ("replace", takes [string, string] string)]),
  ("RegexpMatch", [
    ("group", takes [int] string),
    ("has_match", takes [] boolean)]),
  ("Set", [
    ("add", takes [element] void),
    ("diff", takes [set element] (set element)),
    ("intersection", takes [set element] (set element)),
    ("length", takes [] int),
    ("remove", takes [element] void),
    ("symmetric_diff", takes [set element] (set element)),
    ("union", takes [set element] (set element))]),
  ("String", [
    ("c_format", takes [any] string),
    ("concat", takes [string] string),
    ("find", takes [string] int),
    ("length", takes [] int),
    ("repeat", takes [int] string),
    ("slice", takes [int, int] string),
    ("slice_from", takes [int] string),
    ("slice_to", takes [int] string),
    ("split", takes [string] (list string)),
    ("to_lower", takes [] string),
    ("to_upper", takes [] string)]),
  ("Tuple", [
    ("length", takes [] int)]),
  ("global", [
    ("exit", takes [int] void),
    ("to_float", takes [any] float),
    ("to_int", takes [any] int),
    ("to_string", takes [any] string)]),
  ("io", [
    ("display", ⟨.repeated any, void⟩),
    ("read", takes [] string),
    ("read_file", takes [string] string),
    ("write_file", takes [string, string] void)]),
  ("math", [
    ("cos", takes [number] float),
    ("ln", takes [number] float),
    ("log", takes [number, number] float),
    ("sin", takes [number] float),
    ("sqrt", takes [number] float),
    ("tan", takes [number] float)]),
  ("regexp", [
    ("compile", takes [string] regexp),
    ("escape", takes [string] string)])]

/-- The default tables. -/
def standard : ApiTables :=
  ⟨standardFunctions, standardMethods, standardOperators, standardSignatures⟩

end TreeTyper.ApiTables
