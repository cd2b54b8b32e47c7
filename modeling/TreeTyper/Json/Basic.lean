import TreeTyper.Table

/-!
# JSON values

An integer and a float are different values, also where they denote the same
number.  A float is held by its IEEE bits.  The fields of an object are a list,
so a text with a repeated field has a value of its own; `object` builds an
object with sorted fields and no repetition.
-/

namespace TreeTyper

inductive Json where
  | null
  | bool (b : Bool)
  | int (n : Int)
  | float (bits : UInt64)
  | str (s : String)
  | arr (items : List Json)
  | obj (fields : List (String × Json))
  deriving Inhabited

namespace Json

/-- An object whose fields are in key order; of two fields with one key the later counts. -/
def object (fields : List (String × Json)) : Json := .obj (Table.ofList fields).entries

def ofOption {α : Type} (f : α → Json) : Option α → Json
  | some a => f a
  | none => null

/-- A float as a number; one that is not finite has no number and is null. -/
def ofFloat (bits : UInt64) : Json := if bits >>> 52 &&& 0x7ff = 0x7ff then null else float bits

def ofStrings (ss : List String) : Json := arr (ss.map str)

def field? (fields : List (String × Json)) (name : String) : Option Json :=
  Table.findIn name fields

/-- The named field of an object. -/
def get? (name : String) : Json → Option Json
  | obj fields => field? fields name
  | _ => none

def str? : Json → Option String
  | str s => some s
  | _ => none

def bool? : Json → Option Bool
  | bool b => some b
  | _ => none

def int? : Json → Option Int
  | int n => some n
  | _ => none

def nat? : Json → Option Nat
  | int (.ofNat n) => some n
  | _ => none

/-- An integer that fits a 32-bit word. -/
def word32? (j : Json) : Option UInt32 := do
  let n ← j.nat?
  if n < UInt32.size then some (UInt32.ofNat n) else none

/-- An integer that fits a signed 64-bit word. -/
def int64? : Json → Option Int64
  | int n =>
    if Int64.minValue.toInt ≤ n ∧ n ≤ Int64.maxValue.toInt then some (Int64.ofInt n) else none
  | _ => none

/-- The bits of a float; an integer counts as the float nearest to it. -/
def float? : Json → Option UInt64
  | float bits => some bits
  | int n => some (Float.ofInt n).toBits
  | _ => none

def items? : Json → Option (List Json)
  | arr items => some items
  | _ => none

end Json

end TreeTyper
