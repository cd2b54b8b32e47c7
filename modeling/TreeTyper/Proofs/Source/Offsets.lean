import TreeTyper.Proofs.Source.Lines

/-!
# Offsets of positions

A position in a line of the text is mapped to the start of the line plus the column,
at most to the end of the line.  The sum is made first and has to be a word of 32 bits:

    offset = min (start + col) stop      if start + col < 2 ^ 32
    offset faults                        otherwise, also where stop is smaller

In a text of less than 2 ^ 32 bytes the start and the end of a line are exact, and the sum
is the only operation that can fail.  In a longer one they are taken modulo 2 ^ 32, and a
line feed right before a multiple of 2 ^ 32 has no word before the next start.
-/

namespace TreeTyper

open String (utf8Len)

/-! ## Sums and differences of words -/

variable {a b : UInt32}

theorem addWords_eq_ok (fits : a.toNat + b.toNat < 2 ^ 32) :
    ∃ sum, addWords a b = .ok sum ∧ sum.toNat = a.toNat + b.toNat := by
  refine ⟨a + b, if_pos fits, ?_⟩
  rw [UInt32.toNat_add, Nat.mod_eq_of_lt fits]

theorem addWords_eq_error (exceeds : ¬a.toNat + b.toNat < 2 ^ 32) :
    addWords a b = .error (.sum a b) :=
  if_neg exceeds

/-- Only zero has no word before it. -/
theorem subWords_one (a : UInt32) :
    subWords a 1 = if a = 0 then .error (.difference 0 1) else .ok (a - 1) := by
  rw [subWords]
  split
  · next positive => rw [if_neg (fun zero => absurd (zero ▸ positive) (by decide))]
  · next zero =>
    have zero : a = 0 := UInt32.toNat.inj (by
      rw [UInt32.le_iff_toNat_le, UInt32.toNat_one] at zero
      exact Nat.lt_one_iff.mp (Nat.not_le.mp zero))
    rw [zero, if_pos rfl]

namespace LineIndex

open Text (LineAt)

variable {source : String} {pos : Pos} {i : Nat} {before line after : List Char}

/-! ## Ends of lines -/

/-- A line feed follows the line, and the next line starts at a multiple of 2 ^ 32. -/
def WrapsAfter (before line after : List Char) : Prop :=
  after ≠ [] ∧ (utf8Len (before ++ line) + 1) % 2 ^ 32 = 0

theorem lineStop_of_wraps (place : LineAt source.toList i before line after)
    (wraps : WrapsAfter before line after) :
    (ofString source).lineStop i = .error (.difference 0 1) := by
  have zero : UInt32.ofNat (utf8Len (before ++ line) + 1) = 0 := by
    apply UInt32.toNat.inj
    rw [UInt32.toNat_ofNat', wraps.2]
    rfl
  rw [lineStop, next_of_lineAt place, if_neg wraps.1, zero]
  rfl

theorem lineStop_of_lineAt (place : LineAt source.toList i before line after)
    (word : ¬WrapsAfter before line after) :
    (ofString source).lineStop i = .ok ((ofString source).lineEnd i) := by
  rw [lineStop, lineEnd, next_of_lineAt place]
  by_cases last : after = []
  · rw [if_pos last]
  · rw [if_neg last]
    show subWords _ 1 = _
    rw [subWords_one, if_neg]
    intro zero
    have rest := congrArg UInt32.toNat zero
    rw [UInt32.toNat_ofNat'] at rest
    exact word ⟨last, rest⟩

theorem not_wraps_of_short (short : source.utf8ByteSize < 2 ^ 32)
    (place : LineAt source.toList i before line after) : ¬WrapsAfter before line after := by
  rintro ⟨more, wraps⟩
  have size := size_of_lineAt place
  have feed : 0 < utf8Len after := by
    rcases place.closed with nothing | ⟨lines, rfl⟩
    · exact absurd nothing more
    · rw [String.utf8Len_cons]
      exact Nat.add_pos_right _ (Char.utf8Size_pos _)
  have small : utf8Len (before ++ line) + 1 < 2 ^ 32 := by omega
  rw [Nat.mod_eq_of_lt small] at wraps
  exact Nat.succ_ne_zero _ wraps

/-! ## Offsets -/

/-- The words of the start and of a column have a sum that is a word. -/
def Fits (start col : UInt32) : Prop := start.toNat + col.toNat < 2 ^ 32

theorem offset_of_missing
    (missing : pos.line = 0 ∨ (source.toList.splitOn '\n').length < pos.line.toNat) :
    (ofString source).offset pos = .ok none := by
  rw [← length_starts, ← lineStart?_eq_none_iff] at missing
  rw [offset, missing]

theorem offset_of_lineAt (positive : pos.line ≠ 0)
    (place : LineAt source.toList (pos.line.toNat - 1) before line after) :
    (ofString source).offset pos = do
      let stop ← (ofString source).lineStop (pos.line.toNat - 1)
      let sum ← addWords (UInt32.ofNat (utf8Len before)) pos.col
      return some (min sum stop) := by
  rw [offset, lineStart?_of_lineAt positive place]

theorem offset_of_wraps (positive : pos.line ≠ 0)
    (place : LineAt source.toList (pos.line.toNat - 1) before line after)
    (wraps : WrapsAfter before line after) :
    (ofString source).offset pos = .error (.difference 0 1) := by
  rw [offset_of_lineAt positive place, lineStop_of_wraps place wraps]
  rfl

/-- The offset of a column in the line between the words `start` and `stop`: the clamped sum if
the sum is a word, and the fault of the sum otherwise. -/
structure Maps (start stop col : UInt32) (answer : Except SourceFault (Option UInt32)) : Prop where
  clamped : Fits start col → ∃ found, answer = .ok (some found) ∧
    found.toNat = min (start.toNat + col.toNat) stop.toNat
  overflows : ¬Fits start col → answer = .error (.sum start col)

section Maps

variable {start stop col : UInt32} {answer : Except SourceFault (Option UInt32)}

theorem Maps.ne_none (maps : Maps start stop col answer) : answer ≠ .ok none := by
  by_cases fits : Fits start col
  · obtain ⟨found, answer, -⟩ := maps.clamped fits
    rw [answer]
    exact fun absent => Option.some_ne_none _ (Except.ok.inj absent)
  · rw [maps.overflows fits]
    exact fun absent => nomatch absent

theorem Maps.ne_difference (maps : Maps start stop col answer) (a b : UInt32) :
    answer ≠ .error (.difference a b) := by
  by_cases fits : Fits start col
  · obtain ⟨found, answer, -⟩ := maps.clamped fits
    rw [answer]
    exact fun fault => nomatch fault
  · rw [maps.overflows fits]
    exact fun fault => nomatch fault

theorem Maps.within_iff (maps : Maps start stop col answer) (ordered : start.toNat ≤ stop.toNat) :
    (∃ found, answer = .ok (some found) ∧ start.toNat ≤ found.toNat ∧ found.toNat ≤ stop.toNat) ↔
      Fits start col := by
  constructor
  · rintro ⟨found, answer, -⟩
    by_contra exceeds
    cases (maps.overflows exceeds).symm.trans answer
  · intro fits
    obtain ⟨found, answer, value⟩ := maps.clamped fits
    exact ⟨found, answer, by omega, by omega⟩

end Maps

theorem maps_of_lineAt (positive : pos.line ≠ 0)
    (place : LineAt source.toList (pos.line.toNat - 1) before line after)
    (word : ¬WrapsAfter before line after) :
    Maps (UInt32.ofNat (utf8Len before)) ((ofString source).lineEnd (pos.line.toNat - 1)) pos.col
      ((ofString source).offset pos) := by
  rw [offset_of_lineAt positive place, lineStop_of_lineAt place word]
  constructor
  · intro fits
    obtain ⟨sum, added, value⟩ := addWords_eq_ok fits
    refine ⟨min sum ((ofString source).lineEnd (pos.line.toNat - 1)), ?_, ?_⟩
    · rw [added]
      rfl
    · rw [UInt32.toNat_min, value]
  · intro exceeds
    rw [addWords_eq_error exceeds]
    rfl

/-- In a text of less than 2 ^ 32 bytes no difference fails, and an offset is absent exactly on a
line that does not exist.  On a line that does, its start and end are exact, and the offset is the
clamped sum, in the line, exactly if the sum of the start and the column is a word. -/
theorem offset_clamped_iff_fits (source : String) (short : source.utf8ByteSize < 2 ^ 32)
    (pos : Pos) :
    let index := ofString source
    let count := (source.toList.splitOn '\n').length
    (index.offset pos = .ok none ↔ pos.line = 0 ∨ count < pos.line.toNat) ∧
    (∀ a b, index.offset pos ≠ .error (.difference a b)) ∧
    (pos.line ≠ 0 → pos.line.toNat ≤ count → ∃ before line after start stop,
      LineAt source.toList (pos.line.toNat - 1) before line after ∧
      index.lineStart? pos.line = some (pos.line.toNat - 1, start) ∧
      start.toNat = utf8Len before ∧
      index.lineStop (pos.line.toNat - 1) = .ok stop ∧ stop.toNat = utf8Len (before ++ line) ∧
      Maps start stop pos.col (index.offset pos) ∧
      ((∃ found, index.offset pos = .ok (some found) ∧
        start.toNat ≤ found.toNat ∧ found.toNat ≤ stop.toNat) ↔ Fits start pos.col)) := by
  intro index count
  by_cases missing : pos.line = 0 ∨ count < pos.line.toNat
  · have absent := offset_of_missing missing
    refine ⟨iff_of_true absent missing, fun a b fault => ?_, fun positive bound => ?_⟩
    · cases absent.symm.trans fault
    · exact absurd missing (not_or.mpr ⟨positive, Nat.not_lt.mpr bound⟩)
  obtain ⟨positive, before, line, after, place⟩ := exists_lineAt missing
  have word := not_wraps_of_short short place
  have maps := maps_of_lineAt positive place word
  obtain ⟨start, stop⟩ := toNat_of_lineAt short place
  have sum := String.utf8Len_append before line
  refine ⟨iff_of_false maps.ne_none missing, maps.ne_difference, fun _ _ => ?_⟩
  exact ⟨before, line, after, _, _, place, lineStart?_of_lineAt positive place, start,
    lineStop_of_lineAt place word, stop, maps, maps.within_iff (by omega)⟩

theorem offset_clamped_iff_fits_second :
    "é\nb".utf8ByteSize < 2 ^ 32 ∧ ∃ before line after, ∃ start stop : UInt32,
      LineAt "é\nb".toList 1 before line after ∧ start.toNat = utf8Len before ∧
      Maps start stop 7 ((ofString "é\nb").offset ⟨2, 7⟩) ∧
      start = 3 ∧ stop = 4 ∧ (ofString "é\nb").offset ⟨2, 7⟩ = .ok (some 4) := by
  have short : "é\nb".utf8ByteSize < 2 ^ 32 := by decide
  obtain ⟨before, line, after, start, stop, place, first, size, last, -, maps, -⟩ :=
    (offset_clamped_iff_fits "é\nb" short ⟨2, 7⟩).2.2 (by decide) (by decide)
  have three : (ofString "é\nb").lineStart? 2 = some (1, 3) := by decide
  have four : (ofString "é\nb").lineStop 1 = .ok 4 := by decide
  refine ⟨short, before, line, after, start, stop, place, size, maps, ?_, ?_, by decide⟩
  · exact (Prod.mk.inj (Option.some.inj (first.symm.trans three))).2
  · exact Except.ok.inj (last.symm.trans four)

/-- The greatest column of the second line has no sum with its start, and the clamp to the end of
the line comes too late. -/
theorem offset_sum_overflows :
    let index := ofString "a\nb"
    index.lineStart? 2 = some (1, 2) ∧ index.lineStop 1 = .ok 3 ∧ min (2 + 4294967295) 3 = 3 ∧
    index.offset ⟨2, 4294967295⟩ = .error (.sum 2 4294967295) := by
  decide

end LineIndex

end TreeTyper
