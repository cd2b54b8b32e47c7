import TreeTyper.Json.Reader

/-!
# Tokens of a TOML line

A line is cut into keys, strings and punctuation by a machine that looks at one
character at a time (`step`).  Blanks are space and tab.  A string in double
quotes has escapes, one in single quotes has none; neither holds control
characters other than a tab.  A comment goes from a number sign to the end of the
line.
-/

namespace TreeTyper.Toml

inductive Token where
  | openBracket
  | closeBracket
  | dot
  | comma
  | equals
  /-- A run of ASCII letters, digits, underscores and dashes. -/
  | bare (word : String)
  | quoted (text : String)
  deriving DecidableEq, Repr

/-- Where the token machine is; characters read so far are in reverse. -/
inductive Mode where
  | idle
  | bare (acc : List Char)
  | basic (acc : List Char)
  | escape (acc : List Char)
  /-- Before `count` more hexadecimal digits of an escape, of which `value` has been read. -/
  | hex (acc : List Char) (value count : Nat)
  | literal (acc : List Char)
  | comment
  deriving Repr

def isBareChar (c : Char) : Bool := c.isAlphanum || c == '_' || c == '-'

/-- Whether a character may stand in a string or a comment. -/
def isPlain (c : Char) : Bool := c == '\t' || (0x20 ≤ c.toNat && c.toNat ≠ 0x7f)

def punctuation? : Char → Option Token
  | '[' => some .openBracket
  | ']' => some .closeBracket
  | '.' => some .dot
  | ',' => some .comma
  | '=' => some .equals
  | _ => none

/-- The start of a token. -/
def start (c : Char) : Option (List Token × Mode) :=
  if c == ' ' || c == '\t' then some ([], .idle)
  else if c == '#' then some ([], .comment)
  else if c == '"' then some ([], .basic [])
  else if c == '\'' then some ([], .literal [])
  else if isBareChar c then some ([], .bare [c])
  else (punctuation? c).map fun t => ([t], .idle)

/-- The mode after the character of an escape. -/
def afterEscape (acc : List Char) : Char → Option Mode
  | 'u' => some (.hex acc 0 4)
  | 'U' => some (.hex acc 0 8)
  | '/' => none
  | c => (Json.simpleEscape? c).map fun e => .basic (e :: acc)

/-- The mode after one more digit of an escape, which has to name a character. -/
def afterDigit (acc : List Char) (value : Nat) : (count : Nat) → Option Mode
  | 0 => none
  | 1 => if value.isValidChar then some (.basic (Char.ofNat value :: acc)) else none
  | count + 1 => some (.hex acc value count)

/-- The tokens finished by the next character, and the mode after it. -/
def step : Mode → Char → Option (List Token × Mode)
  | .idle, c => start c
  | .bare acc, c =>
    if isBareChar c then some ([], .bare (c :: acc))
    else (start c).map fun (ts, mode) => (.bare (String.ofList acc.reverse) :: ts, mode)
  | .basic acc, c =>
    if c == '"' then some ([.quoted (String.ofList acc.reverse)], .idle)
    else if c == '\\' then some ([], .escape acc)
    else if isPlain c then some ([], .basic (c :: acc))
    else none
  | .escape acc, c => (afterEscape acc c).map fun mode => ([], mode)
  | .hex acc value count, c => do
    let d ← Json.hexDigit? c
    let mode ← afterDigit acc (16 * value + d) count
    return ([], mode)
  | .literal acc, c =>
    if c == '\'' then some ([.quoted (String.ofList acc.reverse)], .idle)
    else if isPlain c then some ([], .literal (c :: acc))
    else none
  | .comment, c => if isPlain c then some ([], .comment) else none

/-- The tokens from a mode on. -/
def tokensFrom : Mode → List Char → Option (List Token)
  | .idle, [] => some []
  | .comment, [] => some []
  | .bare acc, [] => some [.bare (String.ofList acc.reverse)]
  | _, [] => none
  | mode, c :: cs => do
    let (ts, mode) ← step mode c
    let rest ← tokensFrom mode cs
    return ts ++ rest

/-- The tokens of a line. -/
def tokens? (line : List Char) : Option (List Token) := tokensFrom .idle line

end TreeTyper.Toml
