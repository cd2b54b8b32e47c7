import TreeTyper.Proofs.TypeText.Tokens

/-!
# How a text is cut into tokens

A text is cut into words, which are as long as they can be, and into brackets and commas;
blanks may stand before every token and at the end.  There is at most one way to cut a
text, and a text that cannot be cut has a character that no token begins with.

    Cut s.toList ts ↔ tokens s = ts ∧ ∀ c, .other c ∉ ts        (cut_iff)
-/

namespace TreeTyper

namespace Text

theorem exists_of_inRanges {n : Nat} {ranges : List (Nat × Nat)} (inside : inRanges n ranges) :
    ∃ r ∈ ranges, r.1 ≤ n ∧ n ≤ r.2 := by
  induction ranges with
  | nil => cases inside
  | cons r rest ih =>
    unfold inRanges at inside
    split at inside
    · cases inside
    split at inside
    · next notBelow notAbove => exact ⟨r, List.mem_cons_self, Nat.le_of_not_lt notBelow, notAbove⟩
    · obtain ⟨r', listed, bounds⟩ := ih inside
      exact ⟨r', List.mem_cons_of_mem r listed, bounds⟩

/-- No blank is a letter or a number. -/
theorem isAlphanumeric_of_isBlank {c : Char} (blank : isBlank c) : isAlphanumeric c = false := by
  have apart : ∀ r ∈ blankRanges, ∀ n ∈ List.range' r.1 (r.2 + 1 - r.1),
      (inRanges n alphabeticRanges || inRanges n numericRanges) = false := by
    decide +kernel
  obtain ⟨r, listed, low, high⟩ := exists_of_inRanges blank
  refine apart r listed c.toNat ?_
  rw [List.mem_range'_1]
  omega

end Text

namespace Ty

/-! ## Cutting -/

/-- The characters that are tokens by themselves. -/
def signs : List (Char × Token) := [('[', .openBracket), (']', .closeBracket), (',', .comma)]

/-- A text is cut into tokens, with blanks before every token and at the end.  A word goes on as far
as there are characters of words. -/
inductive Cut : List Char → List Token → Prop
  | done {blanks : List Char} : (∀ c ∈ blanks, Text.isBlank c) → Cut blanks []
  | word {blanks w rest : List Char} {ts : List Token} : (∀ c ∈ blanks, Text.isBlank c) → w ≠ [] →
      (∀ c ∈ w, isTypeChar c) → (∀ c ∈ rest.head?, isTypeChar c = false) → Cut rest ts →
      Cut (blanks ++ (w ++ rest)) (.word (String.ofList w) :: ts)
  | sign {blanks rest : List Char} {c : Char} {token : Token} {ts : List Token} :
      (∀ c ∈ blanks, Text.isBlank c) → (c, token) ∈ signs → Cut rest ts →
      Cut (blanks ++ c :: rest) (token :: ts)

theorem isTypeChar_of_isBlank {c : Char} (blank : Text.isBlank c) : isTypeChar c = false := by
  have differs {d : Char} (notBlank : Text.isBlank d = false) : (c == d) = false := by
    refine beq_false_of_ne fun same => ?_
    rw [← same, blank] at notBlank
    cases notBlank
  have underscore : (c == '_') = false := differs (by decide)
  have atSign : (c == '@') = false := differs (by decide)
  have question : (c == '?') = false := differs (by decide)
  rw [isTypeChar, Text.isAlphanumeric_of_isBlank blank, underscore, atSign, question]
  rfl

/-- A sign is in no word and no blank, and is the token that it marks. -/
theorem mark_of_mem_signs {c : Char} {token : Token} (listed : (c, token) ∈ signs) :
    isTypeChar c = false ∧ Text.isBlank c = false ∧ mark c = token := by
  have all : ∀ x ∈ signs, isTypeChar x.1 = false ∧ Text.isBlank x.1 = false ∧ mark x.1 = x.2 := by
    decide
  exact all _ listed

theorem mem_signs {c : Char} (known : ∀ d, mark c ≠ .other d) : (c, mark c) ∈ signs := by
  unfold mark at known ⊢
  split
  · simp [signs]
  · simp [signs]
  · simp [signs]
  · next notOpen notClose notComma =>
    split at known
    · exact absurd rfl notOpen
    · exact absurd rfl notClose
    · exact absurd rfl notComma
    · exact absurd rfl (known c)

/-! ## What was cut -/

theorem tokensFrom_blanks {blanks : List Char} (blank : ∀ c ∈ blanks, Text.isBlank c)
    (cs : List Char) : tokensFrom [] (blanks ++ cs) = tokensFrom [] cs := by
  induction blanks with
  | nil => rfl
  | cons c blanks ih =>
    obtain ⟨first, others⟩ := List.forall_mem_cons.mp blank
    have inNoWord : ¬isTypeChar c := Bool.eq_false_iff.mp (isTypeChar_of_isBlank first)
    rw [List.cons_append, tokensFrom_cons, if_neg inNoWord, if_pos first]
    exact ih others

theorem tokensFrom_of_cut {cs : List Char} {ts : List Token} (cut : Cut cs ts) :
    tokensFrom [] cs = ts := by
  induction cut with
  | @done blanks blank =>
    have none := tokensFrom_blanks blank []
    rwa [List.append_nil] at none
  | @word blanks w rest ts blank notNil chars ends _ ih =>
    rw [tokensFrom_blanks blank, tokensFrom_append ends, tokensFrom_word chars, List.append_nil, ih,
      flush, if_neg, List.reverse_reverse]
    · rfl
    · rwa [List.isEmpty_reverse, List.isEmpty_iff]
  | @sign blanks rest c token ts blank listed _ ih =>
    obtain ⟨inNoWord, notBlank, same⟩ := mark_of_mem_signs listed
    rw [tokensFrom_blanks blank, tokensFrom_cons, if_neg (Bool.eq_false_iff.mp inNoWord),
      if_neg (Bool.eq_false_iff.mp notBlank), ih, same]
    rfl

theorem other_not_mem_of_cut {cs : List Char} {ts : List Token} (cut : Cut cs ts) (c : Char) :
    .other c ∉ ts := by
  induction cut with
  | done => exact List.not_mem_nil
  | word _ _ _ _ _ ih => exact List.not_mem_cons_of_ne_of_not_mem Token.noConfusion ih
  | sign _ listed _ ih =>
    refine List.not_mem_cons_of_ne_of_not_mem ?_ ih
    rintro rfl
    simp [signs] at listed

/-! ## What can be cut -/

theorem Cut.blank {c : Char} {cs : List Char} {ts : List Token} (blank : Text.isBlank c)
    (cut : Cut cs ts) : Cut (c :: cs) ts := by
  cases cut with
  | done blanks => exact .done (List.forall_mem_cons.mpr ⟨blank, blanks⟩)
  | word blanks notNil chars ends rest =>
    exact .word (List.forall_mem_cons.mpr ⟨blank, blanks⟩) notNil chars ends rest
  | sign blanks listed rest => exact .sign (List.forall_mem_cons.mpr ⟨blank, blanks⟩) listed rest

/-- A text that begins with no character of a word is cut there. -/
theorem Cut.flush {word cs : List Char} {ts : List Token} (chars : ∀ c ∈ word, isTypeChar c)
    (ends : ∀ c ∈ cs.head?, isTypeChar c = false) (cut : Cut cs ts) :
    Cut (word.reverse ++ cs) (Ty.flush word ts) := by
  unfold Ty.flush
  split
  · next none => rwa [List.isEmpty_iff.mp none]
  · next some =>
    have notNil : word.reverse ≠ [] := by
      rwa [Ne, List.reverse_eq_nil_iff, ← List.isEmpty_iff]
    have chars : ∀ c ∈ word.reverse, isTypeChar c := fun c hc => chars c (List.mem_reverse.mp hc)
    exact .word (List.forall_mem_nil _) notNil chars ends cut

theorem other_mem_flush {word : List Char} {ts : List Token} {c : Char} (listed : .other c ∈ ts) :
    .other c ∈ flush word ts := by
  unfold flush
  split
  · exact listed
  · exact List.mem_cons_of_mem _ listed

theorem cut_tokensFrom {word cs : List Char} (chars : ∀ c ∈ word, isTypeChar c)
    (known : ∀ c, .other c ∉ tokensFrom word cs) : Cut (word.reverse ++ cs) (tokensFrom word cs) := by
  induction cs generalizing word with
  | nil => exact Cut.flush chars nofun (.done nofun)
  | cons c cs ih =>
    rw [tokensFrom_cons] at known ⊢
    split
    · next inWord =>
      rw [if_pos inWord] at known
      have cut := ih (List.forall_mem_cons.mpr ⟨inWord, chars⟩) known
      rwa [List.reverse_cons, List.append_assoc] at cut
    next inNoWord =>
    rw [if_neg inNoWord] at known
    have ends : ∀ d ∈ (c :: cs).head?, isTypeChar d = false := by
      rintro d ⟨⟩
      exact Bool.eq_false_iff.mpr inNoWord
    split
    · next blank =>
      rw [if_pos blank] at known
      have rest := ih (List.forall_mem_nil _) fun d hd => known d (other_mem_flush hd)
      exact Cut.flush chars ends (rest.blank blank)
    · next notBlank =>
      rw [if_neg notBlank] at known
      have knownSign : ∀ d, mark c ≠ .other d := fun d same =>
        known d (other_mem_flush (same ▸ List.mem_cons_self))
      have rest := ih (List.forall_mem_nil _) fun d hd =>
        known d (other_mem_flush (List.mem_cons_of_mem _ hd))
      exact Cut.flush chars ends (.sign (List.forall_mem_nil _) (mem_signs knownSign) rest)

/-- A text is cut into its tokens, if each of them is a word, a bracket or a comma. -/
theorem cut_iff {s : String} {ts : List Token} :
    Cut s.toList ts ↔ tokens s = ts ∧ ∀ c, .other c ∉ ts := by
  constructor
  · exact fun cut => ⟨tokensFrom_of_cut cut, other_not_mem_of_cut cut⟩
  · rintro ⟨rfl, known⟩
    exact cut_tokensFrom (List.forall_mem_nil _) known

end Ty

end TreeTyper
