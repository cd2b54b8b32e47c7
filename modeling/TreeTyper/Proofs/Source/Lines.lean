import Mathlib.Data.List.DropRight
import TreeTyper.Proofs.Source.Bytes

/-!
# The lines of a text

The lines are the pieces between the line feeds, so a text has one line more than line
feeds, and the last one is empty if the text ends with a line feed.  `LineAt` says where
a line lies: between a text that is empty or ends with a line feed, with as many line
feeds as there are lines before, and a text that is empty or begins with one.

The index finds the lines at these places:

    starts[i] is the length of the text before line i                   (starts_of_lineAt)
    lineEnd i is the length of the text before line i and of the line   (lineEnd_of_lineAt)

Both hold for words of 32 bits, which wrap, in every text; in a text of less than 2 ^ 32
bytes the words are the lengths themselves.
-/

namespace TreeTyper

open String (utf8Len)

/-! ## Where a line lies -/

namespace Text

/-- Line `i` of a text, counted from zero, with the text before it and the text after it. -/
structure LineAt (cs : List Char) (i : Nat) (before line after : List Char) : Prop where
  split : before ++ line ++ after = cs
  unbroken : '\n' ∉ line
  opened : before = [] ∨ ∃ lines, before = lines ++ ['\n']
  closed : after = [] ∨ ∃ lines, after = '\n' :: lines
  number : before.count '\n' = i

/-- A text has no line feed, or it is a line, a line feed and a text. -/
theorem lines_induction {motive : List Char → Prop}
    (last : ∀ line, '\n' ∉ line → motive line)
    (first : ∀ line rest, '\n' ∉ line → motive rest → motive (line ++ '\n' :: rest)) :
    ∀ cs, motive cs := by
  intro cs
  induction size : cs.length using Nat.strong_induction_on generalizing cs with
  | _ n ih =>
    by_cases broken : '\n' ∈ cs
    · obtain ⟨line, rest, rfl, unbroken⟩ := List.eq_append_cons_of_mem broken
      have shorter : rest.length < n := by
        rw [← size, List.length_append, List.length_cons]
        omega
      exact first line rest unbroken (ih _ shorter rest rfl)
    · exact last cs broken

theorem length_splitOn (cs : List Char) : (cs.splitOn '\n').length = cs.count '\n' + 1 := by
  induction cs using lines_induction with
  | last line unbroken =>
    rw [List.splitOn_eq_singleton unbroken, List.count_eq_zero_of_not_mem unbroken]
    rfl
  | first line rest unbroken ih =>
    rw [List.splitOn_append_cons_self_of_not_mem unbroken, List.length_cons, ih,
      List.count_append, List.count_cons_self, List.count_eq_zero_of_not_mem unbroken]
    omega

/-- Behind a line and its line feed the lines have a number more. -/
theorem LineAt.cons {rest before line after : List Char} {i : Nat} {first : List Char}
    (unbroken : '\n' ∉ first) (place : LineAt rest i before line after) :
    LineAt (first ++ '\n' :: rest) (i + 1) (first ++ '\n' :: before) line after where
  split := by
    rw [← place.split]
    simp
  unbroken := place.unbroken
  opened := by
    refine .inr ?_
    rcases place.opened with rfl | ⟨lines, rfl⟩
    · exact ⟨first, rfl⟩
    · exact ⟨first ++ '\n' :: lines, by simp⟩
  closed := place.closed
  number := by
    rw [List.count_append, List.count_cons_self, List.count_eq_zero_of_not_mem unbroken,
      place.number]
    omega

theorem head_splitOn {line after : List Char} (unbroken : '\n' ∉ line)
    (closed : after = [] ∨ ∃ lines, after = '\n' :: lines) :
    ((line ++ after).splitOn '\n')[0]? = some line := by
  rcases closed with rfl | ⟨lines, rfl⟩
  · rw [List.append_nil, List.splitOn_eq_singleton unbroken]
    rfl
  · rw [List.splitOn_append_cons_self_of_not_mem unbroken]
    rfl

/-- The pieces of a text between its line feeds are its lines. -/
theorem getElem?_splitOn_eq_some_iff {cs line : List Char} {i : Nat} :
    (cs.splitOn '\n')[i]? = some line ↔ ∃ before after, LineAt cs i before line after := by
  constructor
  · intro found
    -- line by line: the last one has no line feed, every other one ends at its first
    induction cs using lines_induction generalizing i with
    | last piece unbroken =>
      rw [List.splitOn_eq_singleton unbroken] at found
      cases i with
      | zero =>
        obtain rfl : piece = line := Option.some.inj found
        exact ⟨[], [], List.append_nil piece, unbroken, .inl rfl, .inl rfl, rfl⟩
      | succ i => cases found
    | first piece rest unbroken ih =>
      rw [List.splitOn_append_cons_self_of_not_mem unbroken] at found
      cases i with
      | zero =>
        obtain rfl : piece = line := Option.some.inj found
        exact ⟨[], '\n' :: rest, rfl, unbroken, .inl rfl, .inr ⟨rest, rfl⟩, rfl⟩
      | succ i =>
        obtain ⟨before, after, place⟩ := ih found
        exact ⟨_, _, place.cons unbroken⟩
  · rintro ⟨before, after, rfl, unbroken, opened, closed, rfl⟩
    rcases opened with rfl | ⟨lines, rfl⟩
    · exact head_splitOn unbroken closed
    -- as many lines stand before it as there are line feeds
    · have number : (lines ++ ['\n']).count '\n' = (lines.splitOn '\n').length := by
        rw [length_splitOn, List.count_append]
        rfl
      have split : lines ++ ['\n'] ++ line ++ after = lines ++ '\n' :: (line ++ after) := by
        simp
      rw [split, List.splitOn_append_cons_self, number, List.getElem?_append_right (Nat.le_refl _),
        Nat.sub_self]
      exact head_splitOn unbroken closed

theorem exists_lineAt {cs : List Char} {i : Nat} (bound : i < (cs.splitOn '\n').length) :
    ∃ before line after, LineAt cs i before line after := by
  obtain ⟨before, after, place⟩ :=
    getElem?_splitOn_eq_some_iff.mp (List.getElem?_eq_getElem bound)
  exact ⟨before, _, after, place⟩

end Text

/-! ## The lines of an index -/

namespace LineIndex

open Text (LineAt)

variable {source : String} {i : Nat} {before line after : List Char}

theorem startsAfter_append (here : Nat) (xs ys : List Char) :
    startsAfter here (xs ++ ys) = startsAfter here xs ++ startsAfter (here + utf8Len xs) ys := by
  induction xs generalizing here with
  | nil => rfl
  | cons c rest ih =>
    have sum : here + c.utf8Size + utf8Len rest = here + utf8Len (c :: rest) := by
      rw [String.utf8Len_cons]
      omega
    rw [List.cons_append, startsAfter, startsAfter, ih, sum]
    split <;> rfl

theorem length_startsAfter (here : Nat) (cs : List Char) :
    (startsAfter here cs).length = cs.count '\n' := by
  induction cs generalizing here with
  | nil => rfl
  | cons c rest ih =>
    rw [startsAfter]
    split
    · next feed =>
      rw [feed, List.count_cons_self, List.length_cons, ih]
    · next other =>
      rw [List.count_cons_of_ne other, ih]

theorem startsAfter_feed (here : Nat) (cs : List Char) :
    startsAfter here ('\n' :: cs) = UInt32.ofNat (here + 1) :: startsAfter (here + 1) cs := by
  rw [startsAfter, if_pos rfl]
  rfl

theorem ofNat_succ_sub_one (n : Nat) : UInt32.ofNat (n + 1) - 1 = UInt32.ofNat n := by
  rw [UInt32.ofNat_add]
  exact UInt32.add_sub_cancel ..

theorem length_starts (source : String) :
    (ofString source).starts.length = (source.toList.splitOn '\n').length := by
  rw [Text.length_splitOn, ← length_startsAfter 0]
  rfl

/-- Behind a line feed a line starts. -/
theorem starts_of_feed {lines rest : List Char} (split : lines ++ '\n' :: rest = source.toList) :
    (ofString source).starts[lines.count '\n' + 1]? = some (UInt32.ofNat (utf8Len lines + 1)) := by
  show (0 :: startsAfter 0 source.toList)[_]? = _
  rw [← split, startsAfter_append, startsAfter_feed, Nat.zero_add, List.getElem?_cons_succ,
    ← length_startsAfter 0 lines, List.getElem?_append_right (Nat.le_refl _), Nat.sub_self]
  rfl

/-- The start of a line is the length of the text before it. -/
theorem starts_of_lineAt (place : LineAt source.toList i before line after) :
    (ofString source).starts[i]? = some (UInt32.ofNat (utf8Len before)) := by
  obtain ⟨split, -, opened, -, rfl⟩ := place
  rcases opened with rfl | ⟨lines, rfl⟩
  · rfl
  · have feed : lines ++ '\n' :: (line ++ after) = source.toList := by
      rw [← split]
      simp
    rw [List.count_append, String.utf8Len_append]
    exact starts_of_feed feed

/-- The next line starts behind the line feed that follows a line, if one follows. -/
theorem next_of_lineAt (place : LineAt source.toList i before line after) :
    (ofString source).starts[i + 1]? =
      if after = [] then none else some (UInt32.ofNat (utf8Len (before ++ line) + 1)) := by
  obtain ⟨split, unbroken, -, closed, number⟩ := place
  have feeds : (before ++ line).count '\n' = i := by
    rw [List.count_append, List.count_eq_zero_of_not_mem unbroken, number, Nat.add_zero]
  rcases closed with rfl | ⟨lines, rfl⟩
  · rw [List.append_nil] at split
    rw [if_pos rfl]
    apply List.getElem?_eq_none
    rw [length_starts, Text.length_splitOn, ← split, feeds]
  · rw [if_neg (List.cons_ne_nil _ _), ← feeds]
    exact starts_of_feed split

/-- The end of a line is the length of the text before it and of the line. -/
theorem lineEnd_of_lineAt (place : LineAt source.toList i before line after) :
    (ofString source).lineEnd i = UInt32.ofNat (utf8Len (before ++ line)) := by
  rw [lineEnd, next_of_lineAt place]
  by_cases last : after = []
  · rw [if_pos last]
    show UInt32.ofNat (byteLength source.toList) = _
    rw [byteLength_eq_utf8Len, ← place.split, last, List.append_nil]
  · rw [if_neg last]
    exact ofNat_succ_sub_one _

theorem lineStart?_of_lineAt {n : UInt32} (positive : n ≠ 0)
    (place : LineAt source.toList (n.toNat - 1) before line after) :
    (ofString source).lineStart? n = some (n.toNat - 1, UInt32.ofNat (utf8Len before)) := by
  rw [lineStart?, if_neg positive, starts_of_lineAt place]
  rfl

/-- A line with a number that the text has lies somewhere in it. -/
theorem exists_lineAt {n : UInt32}
    (present : ¬(n = 0 ∨ (source.toList.splitOn '\n').length < n.toNat)) :
    n ≠ 0 ∧ ∃ before line after, LineAt source.toList (n.toNat - 1) before line after := by
  obtain ⟨positive, bound⟩ := not_or.mp present
  have size : n.toNat ≠ 0 := fun zero => positive (UInt32.toNat.inj zero)
  exact ⟨positive, Text.exists_lineAt (by omega)⟩

theorem size_of_lineAt (place : LineAt source.toList i before line after) :
    utf8Len (before ++ line) + utf8Len after = source.utf8ByteSize := by
  rw [← String.utf8Len_append, place.split, String.utf8Len_toList]

theorem slice_of_lineAt (place : LineAt source.toList i before line after) :
    slice source.toList (utf8Len before) (utf8Len (before ++ line)) = some line := by
  rw [← place.split, slice_append]

/-- A line lies between characters. -/
theorem isValid_of_lineAt (place : LineAt source.toList i before line after) :
    (⟨utf8Len before⟩ : String.Pos.Raw).IsValid source ∧
      (⟨utf8Len (before ++ line)⟩ : String.Pos.Raw).IsValid source := by
  have start : before ++ (line ++ after) = source.toList := by
    rw [← place.split, List.append_assoc]
  exact ⟨isValid_iff_exists_append.mpr ⟨before, line ++ after, start, rfl⟩,
    isValid_iff_exists_append.mpr ⟨before ++ line, after, place.split, rfl⟩⟩

/-- In a text of less than 2 ^ 32 bytes the start and the end of a line are exact. -/
theorem toNat_of_lineAt (short : source.utf8ByteSize < 2 ^ 32)
    (place : LineAt source.toList i before line after) :
    (UInt32.ofNat (utf8Len before)).toNat = utf8Len before ∧
      ((ofString source).lineEnd i).toNat = utf8Len (before ++ line) := by
  have size := size_of_lineAt place
  have sum := String.utf8Len_append before line
  rw [lineEnd_of_lineAt place, UInt32.toNat_ofNat', UInt32.toNat_ofNat']
  exact ⟨Nat.mod_eq_of_lt (by omega), Nat.mod_eq_of_lt (by omega)⟩

/-- A line with the carriage returns at its end removed, by the number of the line. -/
theorem line_of_lineAt (short : source.utf8ByteSize < 2 ^ 32) {n : UInt32} (positive : n ≠ 0)
    (place : LineAt source.toList (n.toNat - 1) before line after) :
    (ofString source).line source n = some (String.ofList (line.rdropWhile (· == '\r'))) := by
  obtain ⟨start, stop⟩ := toNat_of_lineAt short place
  rw [LineIndex.line, lineStart?_of_lineAt positive place]
  show (slice source.toList (UInt32.ofNat (utf8Len before)).toNat _).bind _ = _
  rw [start, stop, slice_of_lineAt place]
  rfl

/-- The lines by their numbers are the pieces of the text between its line feeds, each without the
carriage returns at its end; the bounds at which a line is cut out lie between characters. -/
theorem line_is_piece (source : String) (short : source.utf8ByteSize < 2 ^ 32) (n : UInt32) :
    let index := ofString source
    let pieces := source.toList.splitOn '\n'
    (index.line source n = none ↔ n = 0 ∨ pieces.length < n.toNat) ∧
    (∀ piece, n ≠ 0 → pieces[n.toNat - 1]? = some piece →
      index.line source n = some (String.ofList (piece.rdropWhile (· == '\r')))) ∧
    ∀ i start, index.lineStart? n = some (i, start) →
      (⟨start.toNat⟩ : String.Pos.Raw).IsValid source ∧
      (⟨(index.lineEnd i).toNat⟩ : String.Pos.Raw).IsValid source ∧
      slice source.toList start.toNat (index.lineEnd i).toNat = pieces[n.toNat - 1]? := by
  intro index pieces
  have outside : index.lineStart? n = none ↔ n = 0 ∨ pieces.length < n.toNat := by
    rw [lineStart?_eq_none_iff, length_starts]
  refine ⟨⟨fun absent => ?_, fun missing => ?_⟩, fun piece positive found => ?_, ?_⟩
  · by_contra present
    obtain ⟨positive, before, line, after, place⟩ := exists_lineAt present
    rw [line_of_lineAt short positive place] at absent
    cases absent
  · rw [LineIndex.line, outside.mpr missing]
    rfl
  · obtain ⟨before, after, place⟩ := Text.getElem?_splitOn_eq_some_iff.mp found
    exact line_of_lineAt short positive place
  · intro i start found
    have present : ¬(n = 0 ∨ pieces.length < n.toNat) := by
      rw [← outside, found]
      exact Option.some_ne_none _
    obtain ⟨positive, before, line, after, place⟩ := exists_lineAt present
    rw [lineStart?_of_lineAt positive place] at found
    obtain ⟨rfl, rfl⟩ := Prod.mk.inj (Option.some.inj found)
    obtain ⟨first, stop⟩ := toNat_of_lineAt short place
    obtain ⟨startValid, stopValid⟩ := isValid_of_lineAt place
    have piece := Text.getElem?_splitOn_eq_some_iff.mpr ⟨before, after, place⟩
    rw [first, stop]
    exact ⟨startValid, stopValid, (slice_of_lineAt place).trans piece.symm⟩

theorem line_is_piece_returns :
    let source := "é = 1\r\r\n\r\nprint(ñ)\n"
    source.utf8ByteSize < 2 ^ 32 ∧
    (ofString source).line source 1 = some "é = 1" ∧
    (ofString source).line source 4 = some "" ∧
    (ofString source).line source 5 = none := by
  intro source
  have short : source.utf8ByteSize < 2 ^ 32 := by decide
  refine ⟨short, ?_, ?_, ?_⟩
  · exact (line_is_piece source short 1).2.1 "é = 1\r\r".toList (by decide) (by decide)
  · exact (line_is_piece source short 4).2.1 [] (by decide) (by decide)
  · exact (line_is_piece source short 5).1.mpr (.inr (by decide))

end LineIndex

end TreeTyper
