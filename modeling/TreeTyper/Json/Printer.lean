import TreeTyper.Json.Basic

/-!
# Printing JSON text

No blanks; strings escape the quote, the backslash and control characters, with
the short form where there is one.  What is written for the bits of a float is a
parameter.
-/

namespace TreeTyper.Json

def hexDigit (n : Nat) : Char :=
  if n < 10 then Char.ofNat ('0'.toNat + n) else Char.ofNat ('a'.toNat + (n - 10))

/-- The lowest `count` hexadecimal digits of `n`. -/
def hexDigits (n : Nat) : (count : Nat) → List Char
  | 0 => []
  | count + 1 => hexDigits (n / 16) count ++ [hexDigit (n % 16)]

def escapeChar (c : Char) : List Char :=
  if c = '"' then ['\\', '"']
  else if c = '\\' then ['\\', '\\']
  else if c = '\x08' then ['\\', 'b']
  else if c = '\t' then ['\\', 't']
  else if c = '\n' then ['\\', 'n']
  else if c = '\x0c' then ['\\', 'f']
  else if c = '\r' then ['\\', 'r']
  else if c.toNat < 0x20 then '\\' :: 'u' :: hexDigits c.toNat 4
  else [c]

def quote (s : String) : String :=
  String.ofList (['"'] ++ s.toList.flatMap escapeChar ++ ['"'])

section Values

variable (number : UInt64 → String)

mutual

def print : Json → String
  | null => "null"
  | bool true => "true"
  | bool false => "false"
  | int n => toString n
  | float bits => number bits
  | str s => quote s
  | arr items => "[" ++ String.intercalate "," (printAll items) ++ "]"
  | obj fields => "\x7b" ++ String.intercalate "," (printFields fields) ++ "\x7d"

def printAll : List Json → List String
  | [] => []
  | j :: js => print j :: printAll js

def printFields : List (String × Json) → List String
  | [] => []
  | (name, value) :: rest => (quote name ++ ":" ++ print value) :: printFields rest

end

end Values

end TreeTyper.Json
