import TreeTyper.Text.Line
import TreeTyper.Toml.Token

/-!
# TOML documents

A document is a list of sections, each under a path of keys; the entries before
the first header are the section of the empty path.  The subset read here has one
entry, header or comment on a line, and strings, booleans, integers and arrays as
values.

No path has two headers, no section two entries of one key, and no entry stands
where a section of the document runs through (`Document.isConsistent`).
-/

namespace TreeTyper.Toml

inductive Value where
  | text (s : String)
  | bool (b : Bool)
  | int (n : Int)
  | array (items : List Value)
  deriving Repr

structure Section where
  path : List String
  entries : List (String × Value)
  deriving Repr

structure Document where
  /-- The sections before the last one, in order. -/
  before : List Section
  last : Section
  deriving Repr

inductive Line where
  | blank
  | header (path : List String)
  | entry (key : String) (value : Value)
  deriving Repr

/-! ## Lines -/

def key? : Token → Option String
  | .bare word => some word
  | .quoted text => some text
  | _ => none

/-- The path of a header after its opening bracket. -/
def path? : List Token → Option (List String)
  | [t, .closeBracket] => (key? t).map ([·])
  | t :: .dot :: rest => do
    let key ← key? t
    let keys ← path? rest
    return key :: keys
  | _ => none

/-- A decimal integer without leading zeros. -/
def integer? (word : String) : Option Int := do
  let n ← word.toInt?
  if toString n = word ∨ word = "-0" then some n else none

/-- The value of a single token. -/
def scalar? : Token → Option Value
  | .quoted s => some (.text s)
  | .bare "true" => some (.bool true)
  | .bare "false" => some (.bool false)
  | .bare word => (integer? word).map .int
  | _ => none

mutual

/-- Reads a value from its first token on; `stack` holds the items so far, in reverse, of the
arrays around it. -/
def expect : List Token → (stack : List (List Value)) → Option Value
  | .openBracket :: .closeBracket :: rest, stack => resume (.array []) rest stack
  | .openBracket :: rest, stack => expect rest ([] :: stack)
  | t :: rest, stack =>
    match scalar? t with
    | some v => resume v rest stack
    | none => none
  | [], _ => none

/-- Goes on after the value `v`; a comma may follow the last item of an array. -/
def resume (v : Value) : List Token → (stack : List (List Value)) → Option Value
  | [], [] => some v
  | .closeBracket :: rest, items :: stack => resume (.array (v :: items).reverse) rest stack
  | .comma :: .closeBracket :: rest, items :: stack =>
    resume (.array (v :: items).reverse) rest stack
  | .comma :: rest, items :: stack => expect rest ((v :: items) :: stack)
  | _, _ => none

end

def value? (ts : List Token) : Option Value := expect ts []

def lineOf? : List Token → Option Line
  | [] => some .blank
  | .openBracket :: rest => (path? rest).map .header
  | t :: .equals :: rest => do
    let key ← key? t
    let value ← value? rest
    return .entry key value
  | _ => none

/-! ## Documents -/

namespace Document

def empty : Document := ⟨[], ⟨[], []⟩⟩

def sections (d : Document) : List Section := d.before ++ [d.last]

/-- The document with one more line. -/
def add? (d : Document) : Line → Option Document
  | .blank => some d
  | .header path =>
    if d.sections.any (·.path == path) then none else some ⟨d.sections, ⟨path, []⟩⟩
  | .entry key value =>
    if d.last.entries.any (·.1 == key) then none
    else some { d with last := { d.last with entries := d.last.entries ++ [(key, value)] } }

def addAll? (d : Document) : List (List Char) → Option Document
  | [] => some d
  | cs :: rest => do
    let line ← lineOf? (← tokens? cs)
    let d ← d.add? line
    d.addAll? rest

/-- Whether no section lies at or below an entry. -/
def isConsistent (d : Document) : Bool :=
  d.sections.all fun s => s.entries.all fun (key, _) =>
    d.sections.all fun other => !(s.path ++ [key]).isPrefixOf other.path

end Document

/-- The characters of a text without a byte order mark at its start. -/
def unmarked (text : String) : List Char :=
  match text.toList with
  | '\ufeff' :: rest => rest
  | cs => cs

/-- Reads a document. -/
def read? (text : String) : Option Document := do
  let d ← Document.empty.addAll? (Text.terminated (Text.pieces (unmarked text)))
  if d.isConsistent then some d else none

end TreeTyper.Toml
