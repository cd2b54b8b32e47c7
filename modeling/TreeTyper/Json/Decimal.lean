/-!
# Decimal number texts

A number text is an optional sign, an integer part without leading zeros, an
optional fraction and an optional exponent.  `Decimal.read?` splits it; what it
denotes is an integer if it has neither fraction nor exponent and fits 64 bits,
and otherwise a float.

A float is computed from a significand of 64 bits, taken from the leading digits of
the integer part and of the fraction, and scaled by one power of ten at a time.  So
its last bits are not promised to be the nearest; it is exact whenever the digits fit
53 bits and the power of ten is at most 22.
-/

namespace TreeTyper

/-- The parts of a number text. -/
structure Decimal where
  negative : Bool
  /-- The digits before the point. -/
  whole : List Nat
  /-- The digits after the point, if there is one. -/
  fraction : Option (List Nat)
  exponent : Option Int

namespace Decimal

def digit? (c : Char) : Option Nat :=
  if c.isDigit then some (c.toNat - '0'.toNat) else none

def digitsOf (cs : List Char) : List Nat := (cs.takeWhile Char.isDigit).filterMap digit?

def ofDigits (ds : List Nat) : Nat := ds.foldl (fun n d => 10 * n + d) 0

/-- The exponent part of a number text, which is all of `cs`. -/
def exponent? : List Char → Option (Option Int)
  | [] => some none
  | e :: cs =>
    if e ≠ 'e' ∧ e ≠ 'E' then none
    else
      let (negative, cs) := match cs with
        | '-' :: cs => (true, cs)
        | '+' :: cs => (false, cs)
        | cs => (false, cs)
      if cs.isEmpty || !cs.all Char.isDigit then none
      else
        let n : Int := ofDigits (digitsOf cs)
        some (some (if negative then -n else n))

def read? (cs : List Char) : Option Decimal := do
  let (negative, cs) := match cs with
    | '-' :: cs => (true, cs)
    | cs => (false, cs)
  let whole := digitsOf cs
  let cs := cs.dropWhile Char.isDigit
  if whole.isEmpty || (whole.length > 1 && whole.head? == some 0) then none
  else
    match cs with
    | '.' :: cs =>
      let fraction := digitsOf cs
      if fraction.isEmpty then none
      else
        let exponent ← exponent? (cs.dropWhile Char.isDigit)
        return ⟨negative, whole, some fraction, exponent⟩
    | cs =>
      let exponent ← exponent? cs
      return ⟨negative, whole, none, exponent⟩

/-! ## Values -/

/-- The leading digits that fit 64 bits, and how many digits are left. -/
def leading (n : Nat) : List Nat → Nat × List Nat
  | [] => (n, [])
  | d :: ds => if 10 * n + d < 2 ^ 64 then leading (10 * n + d) ds else (n, d :: ds)

/-- The significand in 64 bits and the power of ten that goes with it.  Digits of the integer part
that do not fit are counted, those of the fraction are dropped; a smaller digit of the fraction
may fit again after one that did not. -/
def significand (d : Decimal) : Nat × Int :=
  let fraction := d.fraction.getD []
  let (n, uncounted) := leading 0 d.whole
  let (m, dropped) := leading n fraction
  (m, d.exponent.getD 0 + uncounted.length - (fraction.length - dropped.length : Nat))

def powerOfTen (n : Nat) : Float := Float.ofScientific 1 false n

/-- Divides by a power of ten, by at most 10^308 in one step; after `steps` steps the
quotient of a 64-bit significand is zero. -/
def scaleDown (f : Float) (n : Nat) : (steps : Nat) → Float
  | 0 => 0
  | steps + 1 =>
    if n ≤ 308 then f / powerOfTen n else scaleDown (f / powerOfTen 308) (n - 308) steps

/-- The magnitude of the float, absent if it is too large. -/
def magnitude? (d : Decimal) : Option Float :=
  let (n, scale) := d.significand
  let f := (UInt64.ofNat n).toFloat
  if n = 0 then some f
  else if scale < 0 then some (scaleDown f scale.natAbs 5)
  else if scale > 308 then none
  else
    let g := f * powerOfTen scale.toNat
    if g.isInf then none else some g

/-- The bits of the float, absent if it is too large. -/
def floatBits? (d : Decimal) : Option UInt64 :=
  d.magnitude?.map fun f => (if d.negative then -f else f).toBits

/-- The integer, absent if there is a fraction or an exponent, for a negative zero, and beyond
the range of signed (if negative) or unsigned 64-bit words. -/
def int? (d : Decimal) : Option Int :=
  let n := ofDigits d.whole
  if d.fraction.isSome || d.exponent.isSome then none
  else if d.negative then if 0 < n ∧ Int64.minValue.toInt ≤ -n then some (-n) else none
  else if n < UInt64.size then some n
  else none

end Decimal

end TreeTyper
