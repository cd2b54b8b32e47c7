import TreeTyper.Text.Alphabetic
import TreeTyper.Text.Lowercase
import TreeTyper.Text.Numeric
import TreeTyper.Text.Unspaced
import TreeTyper.Text.Uppercase
import TreeTyper.Text.Wide

/-!
# Character classes

Names of types and of variables are classified by the Unicode properties
`Alphabetic`, `N`, `White_Space`, `Lowercase` and `Uppercase`; snippets measure
characters in terminal columns.
-/

namespace TreeTyper.Text

/-- Whether `n` lies in one of the ranges, which are in increasing order. -/
def inRanges (n : Nat) : List (Nat × Nat) → Bool
  | [] => false
  | (lo, hi) :: rest => if n < lo then false else if n ≤ hi then true else inRanges n rest

/-- The property `White_Space`. -/
def blankRanges : List (Nat × Nat) := [
  (0x9, 0xd), (0x20, 0x20), (0x85, 0x85), (0xa0, 0xa0), (0x1680, 0x1680), (0x2000, 0x200a),
  (0x2028, 0x2029), (0x202f, 0x202f), (0x205f, 0x205f), (0x3000, 0x3000)]

def isAlphabetic (c : Char) : Bool := inRanges c.toNat alphabeticRanges

def isNumeric (c : Char) : Bool := inRanges c.toNat numericRanges

def isAlphanumeric (c : Char) : Bool := isAlphabetic c || isNumeric c

def isBlank (c : Char) : Bool := inRanges c.toNat blankRanges

def isLowercase (c : Char) : Bool := inRanges c.toNat lowercaseRanges

def isUppercase (c : Char) : Bool := inRanges c.toNat uppercaseRanges

/-- A character of a name: a letter, a number or an underscore. -/
def isWordChar (c : Char) : Bool := isAlphanumeric c || c == '_'

/-- The number of terminal columns of a character other than a tab. -/
def columns (c : Char) : Nat :=
  if inRanges c.toNat unspacedRanges then 0
  else if inRanges c.toNat wideRanges then 2
  else 1

end TreeTyper.Text
