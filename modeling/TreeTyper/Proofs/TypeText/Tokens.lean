import TreeTyper.Ty.Parse
import TreeTyper.Ty.Render

/-!
# The tokens of a written type

A word of a text ends where a character of another kind follows, so a text that goes on
with a bracket or a comma is cut there.  This holds whatever the parts are: the tokens of a
head with parameters are those of the head and of the parameters, with the brackets around
them and the commas between them.

    tokens (applied head params) = tokens head ++ .openBracket ::
      (List.intercalate [.comma] (params.map tokens) ++ [.closeBracket])      (tokens_applied)
    tokens w = [.word w]                                                      (tokens_word)
-/

namespace TreeTyper.Ty

/-- The token of a character that is in no word and no blank. -/
def mark : Char → Token
  | '[' => .openBracket
  | ']' => .closeBracket
  | ',' => .comma
  | c => .other c

theorem tokensFrom_cons (word : List Char) (c : Char) (cs : List Char) :
    tokensFrom word (c :: cs) =
      if isTypeChar c then tokensFrom (c :: word) cs
      else if Text.isBlank c then flush word (tokensFrom [] cs)
      else flush word (mark c :: tokensFrom [] cs) := rfl

/-! ## Texts one after the other -/

theorem flush_append (word : List Char) (rest rest' : List Token) :
    flush word (rest ++ rest') = flush word rest ++ rest' := by
  unfold flush
  split <;> rfl

/-- A text that begins with no character of a word ends the word before it. -/
theorem tokensFrom_of_stops {cs : List Char} (stops : ∀ c ∈ cs.head?, isTypeChar c = false)
    (word : List Char) : tokensFrom word cs = flush word (tokensFrom [] cs) := by
  cases cs with
  | nil => rfl
  | cons c cs =>
    have ends : ¬isTypeChar c := by
      rw [stops c rfl]
      exact Bool.false_ne_true
    rw [tokensFrom_cons, tokensFrom_cons, if_neg ends, if_neg ends]
    split <;> rfl

theorem tokensFrom_append {cs : List Char} (stops : ∀ c ∈ cs.head?, isTypeChar c = false)
    (word before : List Char) :
    tokensFrom word (before ++ cs) = tokensFrom word before ++ tokensFrom [] cs := by
  induction before generalizing word with
  | nil =>
    rw [List.nil_append, tokensFrom_of_stops stops, tokensFrom, ← flush_append, List.nil_append]
  | cons c before ih =>
    rw [List.cons_append, tokensFrom_cons, tokensFrom_cons]
    split
    · exact ih (c :: word)
    split
    · rw [ih, flush_append]
    · rw [ih, ← flush_append, List.cons_append]

/-- Texts between which a comma and a blank stand. -/
theorem tokensFrom_intercalate {cs : List Char} (stops : ∀ c ∈ cs.head?, isTypeChar c = false) :
    ∀ texts : List (List Char), tokensFrom [] (List.intercalate [',', ' '] texts ++ cs) =
      List.intercalate [.comma] (texts.map (tokensFrom [])) ++ tokensFrom [] cs
  | [] => rfl
  | [text] => by
    rw [List.map_singleton, List.intercalate_singleton, List.intercalate_singleton,
      tokensFrom_append stops]
  | text :: next :: texts => by
    have later := tokensFrom_intercalate stops (next :: texts)
    have comma (rest : List Char) : tokensFrom [] (text ++ (',' :: ' ' :: rest)) =
        tokensFrom [] text ++ .comma :: tokensFrom [] rest := by
      refine tokensFrom_append ?_ [] text
      rintro c ⟨⟩
      rfl
    rw [List.map_cons, List.map_cons, List.intercalate_cons_cons, List.intercalate_cons_cons,
      List.append_assoc, List.append_assoc, ← List.map_cons, List.append_assoc, List.append_assoc,
      ← later]
    exact comma _

theorem toList_applied (head : String) (params : List String) :
    (applied head params).toList =
      head.toList ++ '[' :: (List.intercalate [',', ' '] (params.map String.toList) ++ [']']) := by
  rw [applied, String.toList_append, String.toList_append, String.toList_append,
    String.toList_intercalate, List.append_assoc, List.append_assoc]
  rfl

/-- A head with parameters, whatever they are. -/
theorem tokens_applied (head : String) (params : List String) :
    tokens (applied head params) =
      tokens head ++ .openBracket ::
        (List.intercalate [.comma] (params.map tokens) ++ [.closeBracket]) := by
  have opens (rest : List Char) : tokensFrom [] (head.toList ++ '[' :: rest) =
      tokens head ++ .openBracket :: tokensFrom [] rest := by
    refine tokensFrom_append ?_ [] head.toList
    rintro c ⟨⟩
    rfl
  have closes : ∀ c ∈ [']'].head?, isTypeChar c = false := by
    rintro c ⟨⟩
    rfl
  rw [tokens, toList_applied, opens, tokensFrom_intercalate closes, List.map_map]
  rfl

/-! ## Words -/

theorem isTypeChar_of_isDigit {c : Char} (digit : c.isDigit) : isTypeChar c := by
  have bounds : 48 ≤ c.toNat ∧ c.toNat ≤ 57 := Char.isDigit_iff_toNat.mp digit
  have numeric : Text.isNumeric c := by
    rw [Text.isNumeric, Text.numericRanges, Text.inRanges, if_neg (by omega), if_pos bounds.2]
  rw [isTypeChar, Text.isAlphanumeric, numeric, Bool.or_true]
  rfl

theorem tokensFrom_word {w : List Char} (chars : ∀ c ∈ w, isTypeChar c) (word : List Char) :
    tokensFrom word w = flush (w.reverse ++ word) [] := by
  induction w generalizing word with
  | nil => rfl
  | cons c w ih =>
    obtain ⟨first, others⟩ := List.forall_mem_cons.mp chars
    rw [tokensFrom_cons, if_pos first, ih others, List.reverse_cons, List.append_assoc]
    rfl

theorem tokens_word {w : String} (chars : ∀ c ∈ w.toList, isTypeChar c) (notEmpty : w ≠ "") :
    tokens w = [.word w] := by
  rw [tokens, tokensFrom_word chars, List.append_nil, flush, if_neg, List.reverse_reverse,
    String.ofList_toList]
  rw [List.isEmpty_reverse, List.isEmpty_iff, String.toList_eq_nil_iff]
  exact notEmpty

theorem mem_flush {word : List Char} {rest : List Token} {w : String}
    (chars : ∀ c ∈ word, isTypeChar c) (listed : .word w ∈ flush word rest) :
    (∀ c ∈ w.toList, isTypeChar c) ∨ .word w ∈ rest := by
  unfold flush at listed
  split at listed
  · exact .inr listed
  rcases List.mem_cons.mp listed with same | listed
  · refine .inl fun c hc => chars c ?_
    rw [Token.word.inj same, String.toList_ofList] at hc
    exact List.mem_reverse.mp hc
  · exact .inr listed

theorem isTypeChar_of_mem_tokensFrom {word cs : List Char} {w : String}
    (chars : ∀ c ∈ word, isTypeChar c) (listed : .word w ∈ tokensFrom word cs) :
    ∀ c ∈ w.toList, isTypeChar c := by
  induction cs generalizing word with
  | nil => exact (mem_flush chars listed).elim id (nomatch ·)
  | cons c cs ih =>
    have later : .word w ∈ tokensFrom [] cs → ∀ c ∈ w.toList, isTypeChar c := ih (by simp)
    rw [tokensFrom_cons] at listed
    split at listed
    · next first => exact ih (List.forall_mem_cons.mpr ⟨first, chars⟩) listed
    split at listed
    · exact (mem_flush chars listed).elim id later
    · rcases mem_flush chars listed with ended | listed
      · exact ended
      rcases List.mem_cons.mp listed with isMark | listed
      · unfold mark at isMark
        split at isMark <;> cases isMark
      · exact later listed

/-- The words among the tokens of a text consist of characters of words. -/
theorem isTypeChar_of_mem_tokens {w s : String} (listed : .word w ∈ tokens s) :
    ∀ c ∈ w.toList, isTypeChar c := by
  rw [tokens] at listed
  exact isTypeChar_of_mem_tokensFrom (by simp) listed

end TreeTyper.Ty
