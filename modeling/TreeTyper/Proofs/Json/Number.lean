import TreeTyper.Json.Printer
import TreeTyper.Json.Reader

/-!
# Printed integers are read back

The digits of a number have no leading zero, so a printed number is a number text of one integer
part, and the integer of that part is the number again as long as it fits 64 bits.

    ofDigits (digits n) = n                                     (ofDigits_digits)
    InRange n → ofDecimal? (toString n).toList = some (.int n)  (ofDecimal?_toString)
-/

namespace TreeTyper

namespace Decimal

/-! ## Digits -/

/-- The digits of a natural number. -/
def digits (n : Nat) : List Nat := (Nat.toDigits 10 n).map fun c => c.toNat - '0'.toNat

theorem isDigit_of_mem_toDigits {n : Nat} {c : Char} (listed : c ∈ Nat.toDigits 10 n) :
    c.isDigit :=
  Nat.isDigit_of_mem_toDigits (by decide) (by decide) listed

theorem ofDigits_digits (n : Nat) : ofDigits (digits n) = n := by
  rw [digits, ofDigits, List.foldl_map]
  exact Nat.ofDigitChars_ten_toDigits

theorem digits_ne_nil (n : Nat) : digits n ≠ [] := by
  simp [digits, Nat.toDigits_ne_nil]

theorem digits_of_lt {n : Nat} (small : n < 10) : digits n = [n] := by
  have value : n.digitChar.toNat - '0'.toNat = n := Nat.toNat_digitChar_sub_48_of_lt_ten small
  rw [digits, Nat.toDigits_eq_if (by decide), if_pos small, List.map_singleton, value]

theorem digits_of_ge {n : Nat} (large : ¬ n < 10) :
    ∃ d, digits n = digits (n / 10) ++ [d] := by
  rw [digits, Nat.toDigits_eq_if (by decide), if_neg large, List.map_append]
  exact ⟨_, rfl⟩

/-- The digits of a number do not begin with a zero, but for zero itself. -/
theorem head?_digits {n : Nat} (positive : n ≠ 0) : (digits n).head? ≠ some 0 := by
  induction n using Nat.strongRecOn with
  | ind n ih =>
    by_cases small : n < 10
    · rw [digits_of_lt small, List.head?_singleton]
      exact fun zero => positive (Option.some.inj zero)
    · obtain ⟨d, split⟩ := digits_of_ge small
      have above := ih (n / 10) (by omega) (by omega)
      obtain ⟨first, others, same⟩ := List.exists_cons_of_ne_nil (digits_ne_nil (n / 10))
      rw [same] at above
      rw [split, same]
      exact above

theorem not_leadingZero (n : Nat) :
    ((digits n).isEmpty || ((digits n).length > 1 && (digits n).head? == some 0)) = false := by
  have nonempty : (digits n).isEmpty = false := by simpa using digits_ne_nil n
  by_cases zero : n = 0
  · rw [zero]
    rfl
  · simp [nonempty, head?_digits zero]

/-! ## Number texts -/

theorem filterMap_digit? {cs : List Char} (all : ∀ c ∈ cs, c.isDigit) :
    cs.filterMap digit? = cs.map fun c => c.toNat - '0'.toNat := by
  induction cs with
  | nil => rfl
  | cons c cs ih =>
    obtain ⟨isDigit, others⟩ := List.forall_mem_cons.mp all
    have value : digit? c = some (c.toNat - '0'.toNat) := if_pos isDigit
    rw [List.filterMap_cons_some value, ih others, List.map_cons]

theorem digitsOf_toDigits (n : Nat) : digitsOf (Nat.toDigits 10 n) = digits n := by
  have whole : (Nat.toDigits 10 n ++ []).takeWhile Char.isDigit = Nat.toDigits 10 n ++ [] :=
    List.takeWhile_append_of_pos fun _ => isDigit_of_mem_toDigits
  rw [List.append_nil] at whole
  rw [digitsOf, whole, filterMap_digit? fun _ => isDigit_of_mem_toDigits, digits]

theorem dropWhile_toDigits (n : Nat) : (Nat.toDigits 10 n).dropWhile Char.isDigit = [] := by
  have nothing : (Nat.toDigits 10 n ++ []).dropWhile Char.isDigit = [] :=
    List.dropWhile_append_of_pos fun _ => isDigit_of_mem_toDigits
  rwa [List.append_nil] at nothing

theorem read?_toDigits (n : Nat) :
    read? (Nat.toDigits 10 n) = some ⟨false, digits n, none, none⟩ := by
  have unsigned : ∀ cs, Nat.toDigits 10 n ≠ '-' :: cs := by
    intro cs same
    have isDigit : '-'.isDigit := isDigit_of_mem_toDigits (same ▸ List.mem_cons_self)
    exact absurd isDigit (by decide)
  unfold read?
  split
  next negative cs signed =>
  split at signed
  · next rest same => exact absurd same (unsigned rest)
  · cases signed
    simp only [digitsOf_toDigits, dropWhile_toDigits, not_leadingZero]
    rfl

theorem read?_neg_toDigits (n : Nat) :
    read? ('-' :: Nat.toDigits 10 n) = some ⟨true, digits n, none, none⟩ := by
  unfold read?
  simp only [digitsOf_toDigits, dropWhile_toDigits, not_leadingZero]
  rfl

end Decimal

namespace Json

/-- The integers that are read back from their digits: those of a signed or an unsigned 64-bit
word. -/
def InRange (n : Int) : Prop := Int64.minValue.toInt ≤ n ∧ n < UInt64.size

theorem toList_toString (n : Int) :
    (toString n).toList =
      if 0 ≤ n then Nat.toDigits 10 n.toNat else '-' :: Nat.toDigits 10 (-n).toNat := by
  rw [Int.toString_eq_repr, Int.repr_eq_if]
  split
  · rw [Nat.toList_repr]
  · rw [String.toList_append, Nat.toList_repr]
    rfl

/-- An integer in range is read back from its text. -/
theorem ofDecimal?_toString {n : Int} (inRange : InRange n) :
    ofDecimal? (toString n).toList = some (.int n) := by
  obtain ⟨low, high⟩ := inRange
  rw [toList_toString]
  split
  · next signed =>
    have small : n.toNat < UInt64.size := by omega
    have same : (n.toNat : Int) = n := Int.toNat_of_nonneg signed
    simp [ofDecimal?, Decimal.read?_toDigits, Decimal.int?, Decimal.ofDigits_digits, small, same]
  · next signed =>
    have positive : 0 < (-n).toNat := by omega
    have same : -((-n).toNat : Int) = n := by omega
    have value : Decimal.int? ⟨true, Decimal.digits (-n).toNat, none, none⟩ = some n := by
      rw [← same] at low
      simp only [Decimal.int?, Decimal.ofDigits_digits]
      rw [if_neg (by simp), if_pos trivial, if_pos ⟨positive, low⟩, same]
    simp [ofDecimal?, Decimal.read?_neg_toDigits, value]

end Json

end TreeTyper
