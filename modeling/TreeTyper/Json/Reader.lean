import TreeTyper.Json.Decimal
import TreeTyper.Json.Printer
import TreeTyper.Json.Text

/-!
# Reading JSON text

A text is cut into tokens by a machine that looks at one character at a time
(`step`).  Two mutual steps then read the tokens with a stack of unfinished
arrays and objects: `expect` reads the start of a value, `resume` goes on after
a finished one.  At most `maxDepth` containers may be open at once.

Blanks are space, tab, line feed and carriage return; strings hold no raw
control characters, and surrogate escapes come in pairs.

What is not in focus may nest at any depth, its numbers may be of any size and the
escapes of its strings need not denote characters.
-/

namespace TreeTyper.Json

/-! ## Strings -/

/-- A part of a string as it is written: a character, or an escape of a 16-bit unit. -/
inductive Piece where
  | char (c : Char)
  | unit (u : Nat)
  deriving DecidableEq, Repr

def isHighSurrogate (u : Nat) : Bool := 0xd800 ≤ u && u ≤ 0xdbff

def isLowSurrogate (u : Nat) : Bool := 0xdc00 ≤ u && u ≤ 0xdfff

/-- The character of a pair of surrogates. -/
def ofSurrogates (high low : Nat) : Char :=
  Char.ofNat (0x10000 + (high - 0xd800) * 0x400 + (low - 0xdc00))

/-- The characters of a string after those already found, which are in reverse. -/
def decode? (found : List Char) : List Piece → Option (List Char)
  | [] => some found.reverse
  | .char c :: rest => decode? (c :: found) rest
  | .unit u :: .unit next :: rest =>
    if isHighSurrogate u then
      if isLowSurrogate next then decode? (ofSurrogates u next :: found) rest else none
    else if isLowSurrogate u then none
    else decode? (Char.ofNat u :: found) (.unit next :: rest)
  | .unit u :: rest =>
    if isHighSurrogate u || isLowSurrogate u then none else decode? (Char.ofNat u :: found) rest

/-- The text that some pieces denote. -/
def textOf? (pieces : List Piece) : Option String := (decode? [] pieces).map String.ofList

/-! ## Tokens -/

inductive Token where
  | openBracket
  | closeBracket
  | openBrace
  | closeBrace
  | colon
  | comma
  | text (pieces : List Piece)
  /-- A run of letters, digits, signs and points. -/
  | word (cs : List Char)
  deriving DecidableEq, Repr

/-- Where the token machine is; what was read so far is in reverse. -/
inductive Mode where
  | idle
  | word (acc : List Char)
  | text (acc : List Piece)
  | escape (acc : List Piece)
  /-- After `count` hexadecimal digits of value `value`. -/
  | hex (acc : List Piece) (value count : Nat)
  deriving Repr

def isJsonBlank (c : Char) : Bool := c == ' ' || c == '\t' || c == '\n' || c == '\r'

def isTokenChar (c : Char) : Bool := c.isAlphanum || c == '+' || c == '-' || c == '.'

def punctuation? : Char → Option Token
  | '[' => some .openBracket
  | ']' => some .closeBracket
  | '\x7b' => some .openBrace
  | '\x7d' => some .closeBrace
  | ':' => some .colon
  | ',' => some .comma
  | _ => none

/-- The start of a token. -/
def start (c : Char) : Option (List Token × Mode) :=
  if isJsonBlank c then some ([], .idle)
  else if c == '"' then some ([], .text [])
  else if isTokenChar c then some ([], .word [c])
  else (punctuation? c).map fun t => ([t], .idle)

def hexDigit? (c : Char) : Option Nat :=
  if c.isDigit then some (c.toNat - '0'.toNat)
  else if 'a' ≤ c ∧ c ≤ 'f' then some (c.toNat - 'a'.toNat + 10)
  else if 'A' ≤ c ∧ c ≤ 'F' then some (c.toNat - 'A'.toNat + 10)
  else none

def simpleEscape? : Char → Option Char
  | '"' => some '"'
  | '\\' => some '\\'
  | '/' => some '/'
  | 'b' => some '\x08'
  | 'f' => some '\x0c'
  | 'n' => some '\n'
  | 'r' => some '\r'
  | 't' => some '\t'
  | _ => none

/-- The tokens finished by the next character, and the mode after it. -/
def step : Mode → Char → Option (List Token × Mode)
  | .idle, c => start c
  | .word acc, c =>
    if isTokenChar c then some ([], .word (c :: acc))
    else (start c).map fun (ts, mode) => (.word acc.reverse :: ts, mode)
  | .text acc, c =>
    if c == '"' then some ([.text acc.reverse], .idle)
    else if c == '\\' then some ([], .escape acc)
    else if c.toNat < 0x20 then none
    else some ([], .text (.char c :: acc))
  | .escape acc, c =>
    if c == 'u' then some ([], .hex acc 0 0)
    else (simpleEscape? c).map fun e => ([], .text (.char e :: acc))
  | .hex acc value count, c => do
    let d ← hexDigit? c
    if count = 3 then some ([], .text (.unit (16 * value + d) :: acc))
    else some ([], .hex acc (16 * value + d) (count + 1))

/-- The tokens of a text after those already found, which are in reverse. -/
def tokensFrom (found : List Token) : Mode → List Char → Option (List Token)
  | .idle, [] => some found.reverse
  | .word acc, [] => some (.word acc.reverse :: found).reverse
  | _, [] => none
  | mode, c :: cs =>
    match step mode c with
    | some (ts, mode) => tokensFrom (ts.reverse ++ found) mode cs
    | none => none

/-! ## Values -/

def ofDecimal? (cs : List Char) : Option Json := do
  let d ← Decimal.read? cs
  match d.int? with
  | some n => return .int n
  | none => return .float (← d.floatBits?)

def literal? (cs : List Char) : Option Json :=
  if cs = ['n', 'u', 'l', 'l'] then some .null
  else if cs = ['t', 'r', 'u', 'e'] then some (.bool true)
  else if cs = ['f', 'a', 'l', 's', 'e'] then some (.bool false)
  else none

/-- The value of a word; a word that is not looked at stands for null. -/
def ofWord? (focus : Focus) (cs : List Char) : Option Json :=
  match literal? cs with
  | some v => some v
  | none => if focus.isNothing then (Decimal.read? cs).map fun _ => .null else ofDecimal? cs

/-- The text of a string; one that is not looked at stands for the empty text. -/
def ofText? (focus : Focus) (pieces : List Piece) : Option String :=
  if focus.isNothing then some "" else textOf? pieces

/-- A container that is still being read, with its focus and its parts so far in reverse. -/
inductive Frame where
  | arr (focus : Focus) (items : List Json)
  | obj (focus : Focus) (fields : List (String × Json)) (name : String)

/-- The fields of an object, in reverse, with one more if it is looked at. -/
def addField (focus : Focus) (fields : List (String × Json)) (name : String) (v : Json) :
    List (String × Json) :=
  if (focus.field name).isNothing then fields else (name, v) :: fields

/-- Whether one more container may be opened. -/
def hasRoom (maxDepth : Nat) (focus : Focus) (stack : List Frame) : Bool :=
  focus.isNothing || stack.length < maxDepth

mutual

/-- Reads a value from its first token on. -/
def expect (maxDepth : Nat) (focus : Focus) : List Token → List Frame → Option Json
  | .text pieces :: rest, stack =>
    match ofText? focus pieces with
    | some s => resume maxDepth (.str s) rest stack
    | none => none
  | .word cs :: rest, stack =>
    match ofWord? focus cs with
    | some v => resume maxDepth v rest stack
    | none => none
  | .openBracket :: rest, stack =>
    if !hasRoom maxDepth focus stack then none
    else
      match rest with
      | .closeBracket :: rest => resume maxDepth (.arr []) rest stack
      | rest => expect maxDepth focus.item rest (.arr focus [] :: stack)
  | .openBrace :: rest, stack =>
    if !hasRoom maxDepth focus stack then none
    else
      match rest with
      | .closeBrace :: rest => resume maxDepth (.obj []) rest stack
      | .text pieces :: .colon :: rest =>
        match ofText? focus pieces with
        | some name => expect maxDepth (focus.field name) rest (.obj focus [] name :: stack)
        | none => none
      | _ => none
  | _, _ => none

/-- Goes on after the value `v`. -/
def resume (maxDepth : Nat) (v : Json) : List Token → List Frame → Option Json
  | [], [] => some v
  | .comma :: rest, .arr focus items :: stack =>
    expect maxDepth focus.item rest (.arr focus (v :: items) :: stack)
  | .closeBracket :: rest, .arr _ items :: stack =>
    resume maxDepth (.arr (v :: items).reverse) rest stack
  | .comma :: .text pieces :: .colon :: rest, .obj focus fields name :: stack =>
    match ofText? focus pieces with
    | some next =>
      let fields := addField focus fields name v
      expect maxDepth (focus.field next) rest (.obj focus fields next :: stack)
    | none => none
  | .closeBrace :: rest, .obj focus fields name :: stack =>
    resume maxDepth (.obj (addField focus fields name v).reverse) rest stack
  | _, _ => none

end

/-- Reads a whole text as one value, of which the parts in focus are kept. -/
def parse? (maxDepth : Nat) (focus : Focus) (text : String) : Option Json := do
  let ts ← tokensFrom [] .idle text.toList
  expect maxDepth focus ts []

/-- Texts without blanks, whose containers nest at most `maxDepth` deep. -/
def plainText (number : UInt64 → String) (maxDepth : Nat) : JsonText :=
  ⟨print number, parse? maxDepth⟩

end TreeTyper.Json
