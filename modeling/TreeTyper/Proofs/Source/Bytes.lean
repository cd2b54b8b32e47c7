import Mathlib.Data.String.Basic
import TreeTyper.Source

/-!
# Cutting a text by bytes

Characters take one to four bytes, so not every number of bytes is a place between
two characters.  It is one exactly if the text splits into two texts of which the
first has that many bytes; `dropBytes`, `takeBytes` and `slice` cut a text there.

    slice (before ++ line ++ after) (utf8Len before) (utf8Len (before ++ line)) = some line
                                                                              (slice_append)
-/

namespace TreeTyper.LineIndex

open String (utf8Len)

/-! ## Lengths -/

theorem foldl_utf8Size (n : Nat) (cs : List Char) :
    cs.foldl (fun n c => n + c.utf8Size) n = n + utf8Len cs := by
  induction cs generalizing n with
  | nil => rfl
  | cons c rest ih =>
    rw [List.foldl_cons, ih, String.utf8Len_cons]
    omega

theorem byteLength_eq_utf8Len (cs : List Char) : byteLength cs = utf8Len cs := by
  have sum := foldl_utf8Size 0 cs
  rwa [Nat.zero_add] at sum

theorem byteLength_toList (source : String) : byteLength source.toList = source.utf8ByteSize := by
  rw [byteLength_eq_utf8Len, String.utf8Len_toList]

/-! ## Cuts -/

/-- A number of bytes ends at a character exactly if the text splits there. -/
theorem isValid_iff_exists_append {source : String} {n : Nat} :
    (⟨n⟩ : String.Pos.Raw).IsValid source ↔
      ∃ before after, before ++ after = source.toList ∧ utf8Len before = n := by
  rw [String.Pos.Raw.isValid_iff_exists_append]
  constructor
  · rintro ⟨first, second, rfl, place⟩
    refine ⟨first.toList, second.toList, String.toList_append.symm, ?_⟩
    rw [String.utf8Len_toList]
    exact (congrArg String.Pos.Raw.byteIdx place).symm
  · rintro ⟨before, after, split, rfl⟩
    refine ⟨String.ofList before, String.ofList after, ?_, (String.rawEndPos_ofList before).symm⟩
    rw [← String.ofList_append, split, String.ofList_toList]

/-- A number of bytes with a character in it is a successor, as the cuts match on it. -/
theorem exists_add_utf8Size (n : Nat) (c : Char) :
    ∃ k, n + c.utf8Size = k + 1 ∧ c.utf8Size ≤ k + 1 ∧ k + 1 - c.utf8Size = n := by
  have size := c.utf8Size_pos
  exact ⟨n + c.utf8Size - 1, by omega, by omega, by omega⟩

theorem dropBytes_cons (n : Nat) (c : Char) (rest : List Char) :
    dropBytes (n + c.utf8Size) (c :: rest) = dropBytes n rest := by
  obtain ⟨k, sum, fits, left⟩ := exists_add_utf8Size n c
  rw [sum, dropBytes, if_pos fits, left]

theorem takeBytes_cons (n : Nat) (c : Char) (rest : List Char) :
    takeBytes (n + c.utf8Size) (c :: rest) = (takeBytes n rest).map (c :: ·) := by
  obtain ⟨k, sum, fits, left⟩ := exists_add_utf8Size n c
  rw [sum, takeBytes, if_pos fits, left]

theorem dropBytes_append (before after : List Char) :
    dropBytes (utf8Len before) (before ++ after) = some after := by
  induction before with
  | nil => cases after <;> rfl
  | cons c rest ih => rw [String.utf8Len_cons, List.cons_append, dropBytes_cons, ih]

/-- What is left after `n` bytes begins behind a text of `n` bytes. -/
theorem exists_append_of_dropBytes {n : Nat} {cs rest : List Char}
    (dropped : dropBytes n cs = some rest) :
    ∃ before, before ++ rest = cs ∧ utf8Len before = n := by
  fun_induction dropBytes n cs with
  | case1 cs => exact ⟨[], Option.some.inj dropped.symm ▸ rfl, rfl⟩
  | case2 n => cases dropped
  | case3 n c cs fits ih =>
    obtain ⟨before, rfl, size⟩ := ih dropped
    refine ⟨c :: before, rfl, ?_⟩
    rw [String.utf8Len_cons, size]
    omega
  | case4 n c cs exceeds => cases dropped

theorem dropBytes_eq_none_iff {source : String} {n : Nat} :
    dropBytes n source.toList = none ↔ ¬(⟨n⟩ : String.Pos.Raw).IsValid source := by
  rw [isValid_iff_exists_append, ← Option.not_isSome_iff_eq_none, Option.isSome_iff_exists, not_iff_not]
  constructor
  · rintro ⟨rest, dropped⟩
    obtain ⟨before, split, size⟩ := exists_append_of_dropBytes dropped
    exact ⟨before, rest, split, size⟩
  · rintro ⟨before, after, split, rfl⟩
    exact ⟨after, split ▸ dropBytes_append before after⟩

theorem takeBytes_append (line after : List Char) :
    takeBytes (utf8Len line) (line ++ after) = some line := by
  induction line with
  | nil => cases after <;> rfl
  | cons c rest ih =>
    rw [String.utf8Len_cons, List.cons_append, takeBytes_cons, ih]
    rfl

theorem slice_append (before line after : List Char) :
    slice (before ++ line ++ after) (utf8Len before) (utf8Len (before ++ line)) = some line := by
  have dropped : dropBytes (utf8Len before) (before ++ line ++ after) = some (line ++ after) := by
    rw [List.append_assoc, dropBytes_append]
  have size : utf8Len (before ++ line) - utf8Len before = utf8Len line := by
    rw [String.utf8Len_append]
    omega
  rw [slice, if_pos (by rw [String.utf8Len_append]; omega), dropped, size]
  exact takeBytes_append line after

end TreeTyper.LineIndex
