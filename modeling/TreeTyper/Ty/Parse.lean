import TreeTyper.Text.CharClass
import TreeTyper.Ty.Basic

/-!
# Reading the text of a type

`tokens` cuts a text into words (runs of letters, numbers, `_`, `@` and `?`) and
single characters; blanks separate words and are otherwise skipped.  Two mutual
steps read the tokens from left to right with a stack of unfinished types:
`expect` reads the start of a type, `resume` goes on after a finished one.  The
grammar is

    T ::= ? | Any | Number | @t | @k | @v | Atom | List[T] | Set[T] | Dictionary[T, T]
        | Array[T, n] | Tuple | Tuple[T, .., T] | Function[T, .., T]

and the first token that does not fit decides the reason of a failure.
-/

namespace TreeTyper.Ty

/-! ## Tokens -/

inductive Token where
  | word (text : String)
  | openBracket
  | closeBracket
  | comma
  | other (c : Char)
  deriving DecidableEq, Repr

/-- A character of a word. -/
def isTypeChar (c : Char) : Bool :=
  Text.isAlphanumeric c || c == '_' || c == '@' || c == '?'

/-- The word read so far, in reverse, in front of further tokens. -/
def flush (word : List Char) (rest : List Token) : List Token :=
  if word.isEmpty then rest else .word (String.ofList word.reverse) :: rest

def tokensFrom (word : List Char) : List Char → List Token
  | [] => flush word []
  | c :: cs =>
    if isTypeChar c then tokensFrom (c :: word) cs
    else if Text.isBlank c then flush word (tokensFrom [] cs)
    else
      let token := match c with
        | '[' => .openBracket
        | ']' => .closeBracket
        | ',' => .comma
        | c => .other c
      flush word (token :: tokensFrom [] cs)

def tokens (text : String) : List Token := tokensFrom [] text.toList

/-! ## Failures -/

/-- Why a text is no type, or a list of texts no signature. -/
inductive ParseReason where
  | expectedType
  | expectedSeparator
  | expectedClose
  | oneParameter (head : String)
  | twoParameters
  | arrayForm
  | arrayLength
  | missingReturn
  | unexpectedWord (text : String)
  | trailingInput
  | emptySignature
  | variadicNotAlone
  deriving DecidableEq, Repr

def ParseReason.message : ParseReason → String
  | expectedType => "expected a type"
  | expectedSeparator => "expected `,` or `]`"
  | expectedClose => "expected `]`"
  | oneParameter head => head ++ " takes one parameter"
  | twoParameters => "Dictionary takes two parameters"
  | arrayForm => "Array takes an element type and a length"
  | arrayLength => "Array length must be an integer"
  | missingReturn => "Function needs a return type"
  | unexpectedWord text => "unexpected `" ++ text ++ "`"
  | trailingInput => "trailing input"
  | emptySignature => "a signature needs at least a return type"
  | variadicNotAlone => "only a lone parameter can be variadic"

structure ParseError where
  input : String
  reason : ParseReason
  deriving DecidableEq, Repr

def ParseError.message (e : ParseError) : String :=
  "invalid pseudo-type `" ++ e.input ++ "`: " ++ e.reason.message

/-! ## Algorithm -/

/-- A constructor whose parameters are all types. -/
inductive Head where
  | list
  | set
  | dictionary
  | tuple
  | function
  deriving DecidableEq, Repr

/-- The type of a head over its parameters. -/
def Head.build : Head → List Ty → Except ParseReason Ty
  | .list, [t] => .ok (.list t)
  | .list, _ => .error (.oneParameter "List")
  | .set, [t] => .ok (.set t)
  | .set, _ => .error (.oneParameter "Set")
  | .dictionary, [k, v] => .ok (.dictionary k v)
  | .dictionary, _ => .error .twoParameters
  | .tuple, ts => .ok (.tuple ts)
  | .function, ts =>
    match ts.getLast? with
    | some ret => .ok (.function ts.dropLast ret)
    | none => .error .missingReturn

/-- What a word begins. -/
inductive WordRole where
  | whole (t : Ty)
  | head (h : Head)
  | array
  | none
  deriving Repr

def wordRole (w : String) : WordRole :=
  match w with
  | "?" => .whole .hole
  | "Any" => .whole .any
  | "Number" => .whole .number
  | "@t" => .whole (.placeholder .element)
  | "@k" => .whole (.placeholder .key)
  | "@v" => .whole (.placeholder .value)
  | "List" => .head .list
  | "Set" => .head .set
  | "Dictionary" => .head .dictionary
  | "Array" => .array
  | "Tuple" => .head .tuple
  | "Function" => .head .function
  | w =>
    match w.toList with
    | c :: _ => if Text.isAlphabetic c then .whole (.atom w) else .none
    | [] => .none

/-- An array length: ASCII digits whose value is below 2^64. -/
def length? (w : String) : Option Nat :=
  let digits := w.toList
  if digits.isEmpty || !digits.all Char.isDigit then none
  else
    let n := digits.foldl (fun n c => 10 * n + (c.toNat - '0'.toNat)) 0
    if n < UInt64.size then some n else none

/-- A type whose parameters are still being read. -/
inductive Frame where
  /-- A head and the parameters read so far. -/
  | params (head : Head) (done : List Ty)
  /-- An array whose element type is being read. -/
  | arrayElement
  deriving Repr

mutual

/-- Reads a type from its first token on. -/
def expect : List Token → List Frame → Except ParseReason Ty
  | .word w :: rest, stack =>
    match wordRole w with
    | .whole t => resume t rest stack
    | .head h =>
      match rest with
      | .openBracket :: rest => expect rest (.params h [] :: stack)
      | rest => do
        let t ← h.build []
        resume t rest stack
    | .array =>
      match rest with
      | .openBracket :: rest => expect rest (.arrayElement :: stack)
      | _ => .error .arrayForm
    | .none => .error (.unexpectedWord w)
  | _, _ => .error .expectedType

/-- Goes on after the type `t`. -/
def resume (t : Ty) : List Token → List Frame → Except ParseReason Ty
  | [], [] => .ok t
  | _ :: _, [] => .error .trailingInput
  | .closeBracket :: rest, .params h done :: stack => do
    let u ← h.build (done ++ [t])
    resume u rest stack
  | .comma :: rest, .params h done :: stack => expect rest (.params h (done ++ [t]) :: stack)
  | _, .params _ _ :: _ => .error .expectedSeparator
  | .comma :: .word w :: rest, .arrayElement :: stack =>
    match length? w with
    | some n =>
      match rest with
      | .closeBracket :: rest => resume (.array t n) rest stack
      | _ => .error .expectedClose
    | none => .error .arrayLength
  | .comma :: _, .arrayElement :: _ => .error .arrayLength
  | _, .arrayElement :: _ => .error .arrayForm

end

def parse (text : String) : Except ParseError Ty :=
  (expect (tokens text) []).mapError (⟨text, ·⟩)

end TreeTyper.Ty
