import TreeTyper.Diagnostic.Span
import TreeTyper.Proofs.Source.Offsets

/-!
# What a failure highlights

The span begins at the offset of the position, or at the start of the source without a
position in it, and lies in the source.  On a character of a word it is the rest of the
word, on another character it is one byte.  Behind the last character there is nothing
to point at, and nothing is taken from before: in a source that is not empty the span is
empty exactly if the position is at the end of the last line or past it (`PointsPast`).

There is a span exactly if the offset is a word (`Overflows`) that lies between characters.
-/

namespace TreeTyper

open String (utf8Len)
open Text (LineAt)
open LineIndex

namespace Failure

variable {f : Failure} {source : String} {pos : Pos} {before line after : List Char}

/-! ## Where a span begins -/

/-- The failure has a position, in `line` between `before` and `after`. -/
structure PlacedAt (f : Failure) (source : String) (pos : Pos) (before line after : List Char) :
    Prop where
  location : f.location = some pos
  positive : pos.line ≠ 0
  place : LineAt source.toList (pos.line.toNat - 1) before line after

/-- The line of the position has no end that is a word, or its start and the column have no sum. -/
def Overflows (f : Failure) (source : String) : Prop :=
  ∃ pos before line after, f.PlacedAt source pos before line after ∧
    (WrapsAfter before line after ∨ ¬Fits (UInt32.ofNat (utf8Len before)) pos.col)

/-- The position is in the last line, at its end or past it. -/
def PointsPast (f : Failure) (source : String) : Prop :=
  source.utf8ByteSize < 2 ^ 32 ∧
    ∃ pos before line, f.PlacedAt source pos before line [] ∧ utf8Len line ≤ pos.col.toNat

/-- Without a position in the source a failure points at its start. -/
theorem offset_unplaced (missing : ∀ pos, f.location = some pos →
      pos.line = 0 ∨ (source.toList.splitOn '\n').length < pos.line.toNat) :
    f.offset source = .ok 0 := by
  rw [offset]
  cases location : f.location with
  | none => exact congrArg Except.ok (Nat.zero_min _)
  | some pos =>
    simp only [offset_of_missing (missing pos location)]
    exact congrArg Except.ok (Nat.zero_min _)

theorem exists_placedAt (present : ¬∀ pos, f.location = some pos →
      pos.line = 0 ∨ (source.toList.splitOn '\n').length < pos.line.toNat) :
    ∃ pos before line after, f.PlacedAt source pos before line after := by
  obtain ⟨pos, location, line⟩ : ∃ pos, f.location = some pos ∧
      ¬(pos.line = 0 ∨ (source.toList.splitOn '\n').length < pos.line.toNat) := by
    simpa using present
  obtain ⟨positive, before, line, after, place⟩ := exists_lineAt line
  exact ⟨pos, before, line, after, location, positive, place⟩

theorem PlacedAt.offset_overflows (placed : f.PlacedAt source pos before line after)
    (overflows : WrapsAfter before line after ∨ ¬Fits (UInt32.ofNat (utf8Len before)) pos.col) :
    ∃ fault, f.offset source = .error fault := by
  obtain ⟨location, positive, place⟩ := placed
  rw [offset, location]
  by_cases wraps : WrapsAfter before line after
  · simp only [offset_of_wraps positive place wraps]
    exact ⟨_, rfl⟩
  · simp only [(maps_of_lineAt positive place wraps).overflows (overflows.resolve_left wraps)]
    exact ⟨_, rfl⟩

theorem PlacedAt.offset_eq (placed : f.PlacedAt source pos before line after)
    (word : ¬WrapsAfter before line after)
    (fits : Fits (UInt32.ofNat (utf8Len before)) pos.col) :
    f.offset source = .ok (min ((UInt32.ofNat (utf8Len before)).toNat + pos.col.toNat)
      (UInt32.ofNat (utf8Len (before ++ line))).toNat) := by
  obtain ⟨location, positive, place⟩ := placed
  obtain ⟨found, answer, value⟩ := (maps_of_lineAt positive place word).clamped fits
  rw [lineEnd_of_lineAt place] at value
  have size := size_of_lineAt place
  have bound : (UInt32.ofNat (utf8Len (before ++ line))).toNat ≤ utf8Len (before ++ line) := by
    rw [UInt32.toNat_ofNat']
    exact Nat.mod_le ..
  rw [offset, location]
  simp only [answer, byteLength_toList]
  show Except.ok (min found.toNat _) = _
  rw [value]
  congr 1
  omega

theorem offset_fails_iff :
    (∃ fault, f.offset source = .error fault) ↔ f.Overflows source := by
  constructor
  · rintro ⟨fault, fails⟩
    by_contra fine
    by_cases missing : ∀ pos, f.location = some pos →
        pos.line = 0 ∨ (source.toList.splitOn '\n').length < pos.line.toNat
    · cases (offset_unplaced missing).symm.trans fails
    · obtain ⟨pos, before, line, after, placed⟩ := exists_placedAt missing
      have inside : ¬(WrapsAfter before line after ∨ ¬Fits (UInt32.ofNat (utf8Len before)) pos.col) :=
        fun overflows => fine ⟨pos, before, line, after, placed, overflows⟩
      rw [not_or, not_not] at inside
      cases (placed.offset_eq inside.1 inside.2).symm.trans fails
  · rintro ⟨pos, before, line, after, placed, overflows⟩
    exact placed.offset_overflows overflows

/-- An offset in a line is the sum that the words of the line give. -/
theorem PlacedAt.offset_of_ok {n : Nat} (placed : f.PlacedAt source pos before line after)
    (found : f.offset source = .ok n) :
    n = min ((UInt32.ofNat (utf8Len before)).toNat + pos.col.toNat)
      (UInt32.ofNat (utf8Len (before ++ line))).toNat := by
  have inside : ¬(WrapsAfter before line after ∨ ¬Fits (UInt32.ofNat (utf8Len before)) pos.col) := by
    intro overflows
    obtain ⟨fault, fails⟩ := placed.offset_overflows overflows
    cases found.symm.trans fails
  rw [not_or, not_not] at inside
  exact Except.ok.inj (found.symm.trans (placed.offset_eq inside.1 inside.2))

/-- In a text of less than 2 ^ 32 bytes the words are the lengths themselves. -/
theorem PlacedAt.offset_of_short {n : Nat} (placed : f.PlacedAt source pos before line after)
    (short : source.utf8ByteSize < 2 ^ 32) (found : f.offset source = .ok n) :
    n = min (utf8Len before + pos.col.toNat) (utf8Len (before ++ line)) := by
  obtain ⟨start, stop⟩ := toNat_of_lineAt short placed.place
  rw [lineEnd_of_lineAt placed.place] at stop
  rw [placed.offset_of_ok found, start, stop]

theorem offset_le {n : Nat} (found : f.offset source = .ok n) : n ≤ source.utf8ByteSize := by
  by_cases missing : ∀ pos, f.location = some pos →
      pos.line = 0 ∨ (source.toList.splitOn '\n').length < pos.line.toNat
  · obtain rfl := Except.ok.inj ((offset_unplaced missing).symm.trans found)
    exact Nat.zero_le _
  · obtain ⟨pos, before, line, after, placed⟩ := exists_placedAt missing
    have size := size_of_lineAt placed.place
    have bound := Nat.mod_le (utf8Len (before ++ line)) (2 ^ 32)
    have value := placed.offset_of_ok found
    rw [UInt32.toNat_ofNat' (n := utf8Len (before ++ line))] at value
    omega

/-- A failure points at the end of the source exactly if that is its start, or if the position is
behind the last character. -/
theorem offset_eq_size_iff {n : Nat} (found : f.offset source = .ok n) :
    n = source.utf8ByteSize ↔ source = "" ∨ f.PointsPast source := by
  constructor
  · intro atEnd
    by_cases missing : ∀ pos, f.location = some pos →
        pos.line = 0 ∨ (source.toList.splitOn '\n').length < pos.line.toNat
    · obtain rfl := Except.ok.inj ((offset_unplaced missing).symm.trans found)
      exact .inl (String.utf8ByteSize_eq_zero_iff.mp atEnd.symm)
    · obtain ⟨pos, before, line, after, placed⟩ := exists_placedAt missing
      have size := size_of_lineAt placed.place
      have sum := String.utf8Len_append before line
      -- no offset in a line is greater than its end, so the line is the last one
      have short : source.utf8ByteSize < 2 ^ 32 := by
        have word := (UInt32.ofNat (utf8Len (before ++ line))).toNat_lt
        have value := placed.offset_of_ok found
        omega
      have value := placed.offset_of_short short found
      have nothing : utf8Len after = 0 := by omega
      obtain rfl := String.utf8Len_eq_zero.mp nothing
      exact .inr ⟨short, pos, before, line, placed, by omega⟩
  · rintro (rfl | ⟨short, pos, before, line, placed, past⟩)
    · exact Nat.le_zero.mp (offset_le found)
    · have size := size_of_lineAt placed.place
      have sum := String.utf8Len_append before line
      have value := placed.offset_of_short short found
      rw [String.utf8Len_nil] at size
      omega

/-! ## What a span shows -/

/-- The end of the span between `before` and `after`. -/
def stopOf (before after : List Char) : Nat :=
  min (utf8Len before + max (utf8Len (after.takeWhile Text.isWordChar)) 1)
    (utf8Len (before ++ after))

theorem span_of_offset {n : Nat} (found : f.offset source = .ok n) :
    f.span source = match dropBytes n source.toList with
      | none => .error (.insideCharacter n)
      | some rest => .ok ⟨n, min (n + max (wordLength rest) 1) (byteLength source.toList)⟩ := by
  rw [span, found]
  rfl

theorem span_of_split {n : Nat} (found : f.offset source = .ok n)
    (split : before ++ after = source.toList) (place : utf8Len before = n) :
    f.span source = .ok ⟨utf8Len before, stopOf before after⟩ := by
  have dropped : dropBytes n source.toList = some after := by
    rw [← split, ← place]
    exact dropBytes_append before after
  rw [span_of_offset found]
  simp only [dropped, stopOf, split, wordLength, byteLength_eq_utf8Len, place]

theorem slice_of_word {rest : List Char} {c : Char} (isWord : Text.isWordChar c) :
    slice (before ++ c :: rest) (utf8Len before) (stopOf before (c :: rest)) =
      some ((c :: rest).takeWhile Text.isWordChar) := by
  have whole : before ++ (c :: rest).takeWhile Text.isWordChar ++
      (c :: rest).dropWhile Text.isWordChar = before ++ c :: rest := by
    rw [List.append_assoc, List.takeWhile_append_dropWhile]
  have size := congrArg utf8Len whole
  rw [String.utf8Len_append, String.utf8Len_append] at size
  have first : 0 < utf8Len ((c :: rest).takeWhile Text.isWordChar) := by
    rw [List.takeWhile_cons_of_pos isWord, String.utf8Len_cons]
    exact Nat.add_pos_right _ c.utf8Size_pos
  have stop : stopOf before (c :: rest) =
      utf8Len (before ++ (c :: rest).takeWhile Text.isWordChar) := by
    have sum := String.utf8Len_append before ((c :: rest).takeWhile Text.isWordChar)
    have whole := String.utf8Len_append before (c :: rest)
    rw [stopOf]
    omega
  rw [stop, ← whole]
  exact slice_append ..

theorem stopOf_other {rest : List Char} {c : Char} (other : ¬Text.isWordChar c) :
    stopOf before (c :: rest) = utf8Len before + 1 := by
  have size := String.utf8Len_append before (c :: rest)
  have first := c.utf8Size_pos
  rw [String.utf8Len_cons] at size
  rw [stopOf, List.takeWhile_cons_of_neg other, String.utf8Len_nil]
  omega

/-- What a span shows of a source: the rest of the word at its start, or one byte of another
character. -/
structure Highlights (f : Failure) (source : String) (span : Span) : Prop where
  ordered : span.start ≤ span.stop
  inside : span.stop ≤ source.utf8ByteSize
  empty_iff : span.start = span.stop ↔ source = "" ∨ f.PointsPast source
  unplaced : (∀ pos, f.location = some pos →
    pos.line = 0 ∨ (source.toList.splitOn '\n').length < pos.line.toNat) → span.start = 0
  placed : ∀ pos before line after, f.PlacedAt source pos before line after →
    span.start = min ((UInt32.ofNat (utf8Len before)).toNat + pos.col.toNat)
      (UInt32.ofNat (utf8Len (before ++ line))).toNat
  clamped : source.utf8ByteSize < 2 ^ 32 → ∀ pos before line after,
    f.PlacedAt source pos before line after →
    span.start = min (utf8Len before + pos.col.toNat) (utf8Len (before ++ line))
  shown : ∃ before after, before ++ after = source.toList ∧ utf8Len before = span.start ∧
    (∀ c ∈ after.head?, Text.isWordChar c → ∃ word tail, word ++ tail = after ∧
      (∀ d ∈ word, Text.isWordChar d) ∧ (∀ d ∈ tail.head?, ¬Text.isWordChar d) ∧
      slice source.toList span.start span.stop = some word) ∧
    ∀ c ∈ after.head?, ¬Text.isWordChar c → span.stop = span.start + 1

theorem highlights_of_split {n : Nat} (found : f.offset source = .ok n)
    (split : before ++ after = source.toList) (place : utf8Len before = n) :
    f.Highlights source ⟨utf8Len before, stopOf before after⟩ := by
  have size := String.utf8Len_append before after
  have whole : utf8Len (before ++ after) = source.utf8ByteSize := by
    rw [split, String.utf8Len_toList]
  have bound := offset_le found
  have stop : stopOf before after =
    min (utf8Len before + max (utf8Len (after.takeWhile Text.isWordChar)) 1)
      (utf8Len (before ++ after)) := rfl
  refine ⟨?_, ?_, ?_, ?_, ?_, ?_, before, after, split, rfl, ?_, ?_⟩
  · show utf8Len before ≤ stopOf before after
    omega
  · show stopOf before after ≤ _
    omega
  · rw [← offset_eq_size_iff found]
    show utf8Len before = stopOf before after ↔ _
    omega
  · intro missing
    exact place.trans (Except.ok.inj (found.symm.trans (offset_unplaced missing)))
  · intro pos before line after placed
    exact place.trans (placed.offset_of_ok found)
  · intro short pos before line after placed
    exact place.trans (placed.offset_of_short short found)
  · intro c head isWord
    obtain ⟨rest, rfl⟩ := List.head?_eq_some_iff.mp head
    refine ⟨_, _, List.takeWhile_append_dropWhile,
      fun d member => List.all_eq_true.mp List.all_takeWhile d member, fun d first => ?_, ?_⟩
    · have stops := List.head?_dropWhile_not Text.isWordChar (c :: rest)
      rw [Option.mem_def.mp first] at stops
      exact ne_true_of_eq_false stops
    · rw [← split]
      exact slice_of_word isWord
  · intro c head other
    obtain ⟨rest, rfl⟩ := List.head?_eq_some_iff.mp head
    exact stopOf_other other

/-- A failure has an offset exactly if the words of its line give one.  Where the offset lies
between two characters, the span lies in the source and shows what begins there, and it is empty
only in an empty source and behind the last character; elsewhere there is no span. -/
theorem span_highlights (f : Failure) (source : String) :
    ((∃ fault, f.offset source = .error fault) ↔ f.Overflows source) ∧
    (∀ fault, f.offset source = .error fault → f.span source = .error fault) ∧
    ∀ n, f.offset source = .ok n →
      ((⟨n⟩ : String.Pos.Raw).IsValid source →
        ∃ span, f.span source = .ok span ∧ f.Highlights source span) ∧
      (¬(⟨n⟩ : String.Pos.Raw).IsValid source → f.span source = .error (.insideCharacter n)) := by
  refine ⟨offset_fails_iff, fun fault fails => ?_, fun n found => ⟨fun boundary => ?_, fun cut => ?_⟩⟩
  · rw [span, fails]
    rfl
  · obtain ⟨before, after, split, place⟩ := isValid_iff_exists_append.mp boundary
    exact ⟨_, span_of_split found split place, highlights_of_split found split place⟩
  · rw [span_of_offset found, dropBytes_eq_none_iff.mpr cut]

/-- `ñu` in the second line of a source. -/
def misspelled : Failure := (typeCheck "ñu is not defined").locate ⟨2, 6⟩

theorem span_highlights_misspelled :
    let source := "é = 1\nprint(ñu)\n"
    misspelled.offset source = .ok 13 ∧ (⟨13⟩ : String.Pos.Raw).IsValid source ∧
    (∃ span, misspelled.span source = .ok span ∧ misspelled.Highlights source span) ∧
    misspelled.span source = .ok ⟨13, 16⟩ ∧
    slice source.toList 13 16 = some "ñu".toList := by
  intro source
  have found : misspelled.offset source = .ok 13 := by decide +kernel
  have boundary : (⟨13⟩ : String.Pos.Raw).IsValid source :=
    isValid_iff_exists_append.mpr ⟨"é = 1\nprint(".toList, "ñu)\n".toList, by decide, by decide⟩
  refine ⟨found, boundary, ?_, by decide +kernel, by decide⟩
  exact ((span_highlights misspelled source).2.2 13 found).1 boundary

/-- A failure at the end of a line. -/
def unclosed : Failure := (typeCheck "oops").locate ⟨1, 7⟩

/-- Behind the last character of a source the span is empty. -/
theorem span_empty_behind_text :
    let source := "a = (1)"
    unclosed.offset source = .ok 7 ∧ (⟨7⟩ : String.Pos.Raw).IsValid source ∧ source ≠ "" ∧
    unclosed.span source = .ok ⟨7, 7⟩ := by
  intro source
  refine ⟨by decide +kernel, ?_, by decide, by decide +kernel⟩
  exact isValid_iff_exists_append.mpr ⟨source.toList, [], by decide, by decide⟩

end Failure

end TreeTyper
