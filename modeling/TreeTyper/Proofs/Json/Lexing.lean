import Mathlib.Data.List.Forall2
import TreeTyper.Proofs.Json.Number

/-!
# Printed values are cut into their tokens

A character of a printed string is read as one piece, the pieces of a string denote it, and a
printed value without floats (`Legible`) is cut into the tokens that its shape says.  What follows
the value must not go on with its last word: in a printed text it begins with a comma or a bracket.

    textOf? (piecesOf s) = some s                                                 (textOf?_piecesOf)
    Legible focus j → tokensFrom [] .idle (print number j).toList = some (tokens number j)
                                                                                  (tokensFrom_print)
-/

namespace TreeTyper.Json

/-! ## Induction on values -/

section Induction

variable {motive : Json → Prop} (null : motive .null) (bool : ∀ b, motive (.bool b))
  (int : ∀ n, motive (.int n)) (float : ∀ bits, motive (.float bits)) (str : ∀ s, motive (.str s))
  (arr : ∀ items, (∀ j ∈ items, motive j) → motive (.arr items))
  (obj : ∀ fields, (∀ field ∈ fields, motive field.2) → motive (.obj fields))

include null bool int float str arr obj

/-- Induction on a value, with the hypothesis for each of its parts. -/
theorem induct (j : Json) : motive j :=
  @Json.rec motive (fun items => ∀ j ∈ items, motive j)
    (fun fields => ∀ field ∈ fields, motive field.2) (fun field => motive field.2)
    null bool int float str arr obj
    (by simp) (fun _ _ first others => List.forall_mem_cons.mpr ⟨first, others⟩)
    (by simp) (fun _ _ first others => List.forall_mem_cons.mpr ⟨first, others⟩)
    (fun _ _ value => value) j

end Induction

/-! ## Values that their texts denote -/

mutual

/-- The value has no floats, its integers are read back from their digits, and all of it is in
focus. -/
def Legible : Focus → Json → Prop
  | focus, arr items => focus.isNothing = false ∧ AllLegible focus.item items
  | focus, obj fields => focus.isNothing = false ∧ FieldsLegible focus fields
  | focus, int n => focus.isNothing = false ∧ InRange n
  | _, float _ => False
  | focus, _ => focus.isNothing = false

def AllLegible : Focus → List Json → Prop
  | _, [] => True
  | focus, j :: js => Legible focus j ∧ AllLegible focus js

def FieldsLegible : Focus → List (String × Json) → Prop
  | _, [] => True
  | focus, (name, j) :: rest => Legible (focus.field name) j ∧ FieldsLegible focus rest

end

theorem Legible.inFocus {focus : Focus} {j : Json} (legible : Legible focus j) :
    focus.isNothing = false := by
  cases j with
  | float bits => exact legible.elim
  | arr items => exact legible.1
  | obj fields => exact legible.1
  | int n => exact legible.1
  | null => exact legible
  | bool b => exact legible
  | str s => exact legible

theorem allLegible_iff {focus : Focus} {items : List Json} :
    AllLegible focus items ↔ ∀ j ∈ items, Legible focus j := by
  induction items with
  | nil => simp [AllLegible]
  | cons j items ih => rw [AllLegible, ih, List.forall_mem_cons]

theorem fieldsLegible_iff {focus : Focus} {fields : List (String × Json)} :
    FieldsLegible focus fields ↔ ∀ field ∈ fields, Legible (focus.field field.1) field.2 := by
  induction fields with
  | nil => simp [FieldsLegible]
  | cons field rest ih => rw [FieldsLegible, ih, List.forall_mem_cons]

variable {number : UInt64 → String}

theorem printAll_eq (js : List Json) : printAll number js = js.map (print number) := by
  induction js with
  | nil => rfl
  | cons j js ih => rw [printAll, ih, List.map_cons]

theorem printFields_eq (fields : List (String × Json)) :
    printFields number fields =
      fields.map fun field => quote field.1 ++ ":" ++ print number field.2 := by
  induction fields with
  | nil => rfl
  | cons field rest ih => rw [printFields, ih, List.map_cons]

/-! ## Strings -/

/-- How a character is written in a string: a control character without a short form by its code,
any other one as itself or by its short form. -/
def pieceOf (c : Char) : Piece :=
  if c.toNat < 0x20 ∧ c ∉ ['\x08', '\t', '\n', '\x0c', '\r'] then .unit c.toNat else .char c

def piecesOf (s : String) : List Piece := s.toList.map pieceOf

theorem decode?_unit {u : Nat} (high : isHighSurrogate u = false) (low : isLowSurrogate u = false)
    (found : List Char) (pieces : List Piece) :
    decode? found (.unit u :: pieces) = decode? (Char.ofNat u :: found) pieces := by
  cases pieces with
  | nil => simp [decode?, high, low]
  | cons p rest => cases p <;> simp [decode?, high, low]

theorem decode?_pieceOf (found cs : List Char) :
    decode? found (cs.map pieceOf) = some (found.reverse ++ cs) := by
  induction cs generalizing found with
  | nil => simp [decode?]
  | cons c cs ih =>
    have next : decode? found (pieceOf c :: cs.map pieceOf) =
        decode? (c :: found) (cs.map pieceOf) := by
      unfold pieceOf
      split
      · next control =>
        have high : isHighSurrogate c.toNat = false := by simp [isHighSurrogate]; omega
        have low : isLowSurrogate c.toNat = false := by simp [isLowSurrogate]; omega
        rw [decode?_unit high low, Char.ofNat_toNat]
      · rw [decode?]
    rw [List.map_cons, next, ih, List.reverse_cons, List.append_assoc]
    rfl

/-- The pieces of a string denote it. -/
theorem textOf?_piecesOf (s : String) : textOf? (piecesOf s) = some s := by
  rw [textOf?, piecesOf, decode?_pieceOf]
  simp

theorem hexDigit?_hexDigit : ∀ d < 16, hexDigit? (hexDigit d) = some d := by
  decide

section Machine

variable (found : List Token) (acc : List Piece) (rest : List Char)

/-- One digit of an escape by code, before the last one. -/
theorem tokensFrom_hexDigit {d count : Nat} (digit : d < 16) (early : count ≠ 3) (value : Nat) :
    tokensFrom found (.hex acc value count) (hexDigit d :: rest) =
      tokensFrom found (.hex acc (16 * value + d) (count + 1)) rest := by
  simp [tokensFrom, step, hexDigit?_hexDigit d digit, early]

theorem tokensFrom_lastHexDigit {d : Nat} (digit : d < 16) (value : Nat) :
    tokensFrom found (.hex acc value 3) (hexDigit d :: rest) =
      tokensFrom found (.text (.unit (16 * value + d) :: acc)) rest := by
  simp [tokensFrom, step, hexDigit?_hexDigit d digit]

/-- An escape by code is read as the unit it denotes. -/
theorem tokensFrom_hexDigits {n : Nat} (small : n < 0x10000) :
    tokensFrom found (.hex acc 0 0) (hexDigits n 4 ++ rest) =
      tokensFrom found (.text (.unit n :: acc)) rest := by
  have digit : ∀ m, m % 16 < 16 := fun m => Nat.mod_lt m (by decide)
  have value : 16 * (16 * (16 * (16 * 0 + n / 16 / 16 / 16 % 16) + n / 16 / 16 % 16) +
      n / 16 % 16) + n % 16 = n := by omega
  simp only [hexDigits, List.nil_append, List.cons_append]
  rw [tokensFrom_hexDigit found acc _ (digit _) (by decide),
    tokensFrom_hexDigit found acc _ (digit _) (by decide),
    tokensFrom_hexDigit found acc _ (digit _) (by decide),
    tokensFrom_lastHexDigit found acc _ (digit _), value]

/-- A written character is read as its piece. -/
theorem tokensFrom_escapeChar (c : Char) :
    tokensFrom found (.text acc) (escapeChar c ++ rest) =
      tokensFrom found (.text (pieceOf c :: acc)) rest := by
  by_cases short : c ∈ ['"', '\\', '\x08', '\t', '\n', '\x0c', '\r']
  · simp only [List.mem_cons, List.not_mem_nil, or_false] at short
    rcases short with rfl | rfl | rfl | rfl | rfl | rfl | rfl <;> rfl
  · simp only [List.mem_cons, List.not_mem_nil, or_false, not_or] at short
    obtain ⟨notQuote, notSlash, notBack, notTab, notLine, notForm, notReturn⟩ := short
    rw [escapeChar, if_neg notQuote, if_neg notSlash, if_neg notBack, if_neg notTab,
      if_neg notLine, if_neg notForm, if_neg notReturn]
    by_cases control : c.toNat < 0x20
    · have piece : pieceOf c = .unit c.toNat := by
        simp [pieceOf, control, notBack, notTab, notLine, notForm, notReturn]
      rw [if_pos control, piece]
      exact tokensFrom_hexDigits found acc rest (by omega)
    · have piece : pieceOf c = .char c := by simp [pieceOf, control]
      rw [if_neg control, piece]
      simp [tokensFrom, step, notQuote, notSlash, control]

theorem tokensFrom_escapeChars (cs : List Char) :
    tokensFrom found (.text acc) (cs.flatMap escapeChar ++ '"' :: rest) =
      tokensFrom (.text (acc.reverse ++ cs.map pieceOf) :: found) .idle rest := by
  induction cs generalizing acc with
  | nil => simp [tokensFrom, step]
  | cons c cs ih =>
    rw [List.flatMap_cons, List.append_assoc, tokensFrom_escapeChar, ih]
    simp

/-- A quoted string is one token. -/
theorem tokensFrom_quote (s : String) :
    tokensFrom found .idle ((quote s).toList ++ rest) =
      tokensFrom (.text (piecesOf s) :: found) .idle rest := by
  have opened : tokensFrom found .idle ('"' :: (s.toList.flatMap escapeChar ++ '"' :: rest)) =
      tokensFrom found (.text []) (s.toList.flatMap escapeChar ++ '"' :: rest) := rfl
  rw [quote, String.toList_ofList, List.append_assoc, List.append_assoc]
  exact opened.trans (tokensFrom_escapeChars found [] rest s.toList)

end Machine

/-! ## Tokens -/

section

variable (number)

mutual

/-- The tokens of a printed value. -/
def tokens : Json → List Token
  | null => [.word ['n', 'u', 'l', 'l']]
  | bool true => [.word ['t', 'r', 'u', 'e']]
  | bool false => [.word ['f', 'a', 'l', 's', 'e']]
  | int n => [.word (toString n).toList]
  | float bits => [.word (number bits).toList]
  | str s => [.text (piecesOf s)]
  | arr items => .openBracket :: (List.intercalate [.comma] (tokensAll items) ++ [.closeBracket])
  | obj fields => .openBrace :: (List.intercalate [.comma] (tokensFields fields) ++ [.closeBrace])

def tokensAll : List Json → List (List Token)
  | [] => []
  | j :: js => tokens j :: tokensAll js

def tokensFields : List (String × Json) → List (List Token)
  | [] => []
  | (name, value) :: rest => (.text (piecesOf name) :: .colon :: tokens value) :: tokensFields rest

end

end

theorem tokensAll_eq (js : List Json) : tokensAll number js = js.map (tokens number) := by
  induction js with
  | nil => rfl
  | cons j js ih => rw [tokensAll, ih, List.map_cons]

theorem tokensFields_eq (fields : List (String × Json)) :
    tokensFields number fields =
      fields.map fun field => .text (piecesOf field.1) :: .colon :: tokens number field.2 := by
  induction fields with
  | nil => rfl
  | cons field rest ih => rw [tokensFields, ih, List.map_cons]

/-- The text begins with a character that no word goes on with, or is at its end. -/
def Separated (rest : List Char) : Prop := ∀ c ∈ rest.head?, isTokenChar c = false

/-- The text is cut into the tokens, whatever was found before it. -/
def Lexes (text : List Char) (ts : List Token) : Prop :=
  ∀ found rest, Separated rest →
    tokensFrom found .idle (text ++ rest) = tokensFrom (ts.reverse ++ found) .idle rest

theorem start_tokenChar {c : Char} (word : isTokenChar c) : start c = some ([], .word [c]) := by
  have noBlank : ¬ isJsonBlank c := by
    intro blank
    simp only [isJsonBlank, Bool.or_eq_true, beq_iff_eq] at blank
    rcases blank with ((rfl | rfl) | rfl) | rfl <;> exact absurd word (by decide)
  have noQuote : c ≠ '"' := by
    rintro rfl
    exact absurd word (by decide)
  simp [start, noBlank, noQuote, word]

theorem tokensFrom_wordEnd (found : List Token) (acc rest : List Char)
    (separated : Separated rest) :
    tokensFrom found (.word acc) rest = tokensFrom (.word acc.reverse :: found) .idle rest := by
  cases rest with
  | nil => simp [tokensFrom]
  | cons c cs =>
    have ended : isTokenChar c = false := separated c rfl
    cases started : start c with
    | none => simp [tokensFrom, step, ended, started]
    | some after => simp [tokensFrom, step, ended, started]

theorem tokensFrom_word (found : List Token) (acc cs rest : List Char)
    (all : ∀ c ∈ cs, isTokenChar c) (separated : Separated rest) :
    tokensFrom found (.word acc) (cs ++ rest) =
      tokensFrom (.word (acc.reverse ++ cs) :: found) .idle rest := by
  induction cs generalizing acc with
  | nil => simpa using tokensFrom_wordEnd found acc rest separated
  | cons c cs ih =>
    obtain ⟨first, others⟩ := List.forall_mem_cons.mp all
    simp [tokensFrom, step, first, ih _ others]

namespace Lexes

/-- A word is one token. -/
theorem word {cs : List Char} (nonempty : cs ≠ []) (all : cs.all isTokenChar) :
    Lexes cs [.word cs] := by
  intro found rest separated
  obtain ⟨c, cs, rfl⟩ := List.exists_cons_of_ne_nil nonempty
  obtain ⟨first, others⟩ := List.forall_mem_cons.mp (List.all_eq_true.mp all)
  have begun : start c = some ([], .word [c]) := start_tokenChar first
  simp [tokensFrom, step, begun, tokensFrom_word found [c] cs rest others separated]

theorem text (s : String) : Lexes (quote s).toList [.text (piecesOf s)] := by
  intro found rest _
  exact tokensFrom_quote found rest s

theorem nil : Lexes [] [] := by
  intro found rest _
  rfl

section Mark

variable {c : Char} {t : Token} {text text' : List Char} {ts ts' : List Token}

/-- A mark is a token of its own. -/
theorem mark (marks : start c = some ([t], .idle)) (after : Lexes text ts) :
    Lexes (c :: text) (t :: ts) := by
  intro found rest separated
  rw [List.cons_append]
  simp [tokensFrom, step, marks, after _ _ separated]

/-- A mark ends what stands before it. -/
theorem between (before : Lexes text ts) (marks : start c = some ([t], .idle))
    (after : Lexes text' ts') : Lexes (text ++ c :: text') (ts ++ t :: ts') := by
  intro found rest separated
  have ended : Separated (c :: text' ++ rest) := by
    rintro c' ⟨rfl⟩
    by_contra word
    rw [Bool.not_eq_false] at word
    rw [start_tokenChar word] at marks
    cases marks
  rw [List.append_assoc, before _ _ ended, mark marks after _ _ separated]
  simp

end Mark

/-- Texts with commas between them. -/
theorem intercalate {texts : List (List Char)} {groups : List (List Token)}
    (each : List.Forall₂ Lexes texts groups) :
    Lexes (List.intercalate [','] texts) (List.intercalate [.comma] groups) := by
  induction each with
  | nil => exact nil
  | cons first others ih =>
    cases others with
    | nil => simpa using first
    | cons second others =>
      rw [List.intercalate_cons_cons, List.intercalate_cons_cons, List.append_assoc,
        List.append_assoc]
      exact first.between rfl ih

end Lexes

/-! ## Values -/

theorem isTokenChar_of_isDigit {c : Char} (digit : c.isDigit) : isTokenChar c := by
  simp [isTokenChar, Char.isAlphanum, digit]

theorem lexes_toString (n : Int) : Lexes (toString n).toList [.word (toString n).toList] := by
  have digits : ∀ m, (Nat.toDigits 10 m).all isTokenChar := by
    intro m
    refine List.all_eq_true.mpr fun c listed => ?_
    exact isTokenChar_of_isDigit (Decimal.isDigit_of_mem_toDigits listed)
  rw [toList_toString]
  split
  · exact Lexes.word Nat.toDigits_ne_nil (digits _)
  · exact Lexes.word (List.cons_ne_nil _ _) (digits _)

/-- A printed value is cut into its tokens. -/
theorem lexes_print (number : UInt64 → String) {focus : Focus} {j : Json}
    (legible : Legible focus j) :
    Lexes (print number j).toList (tokens number j) := by
  have wrapped : ∀ (opening closing : String) (texts : List String),
      (opening ++ String.intercalate "," texts ++ closing).toList =
        opening.toList ++ (List.intercalate [','] (texts.map String.toList) ++ closing.toList) := by
    intro opening closing texts
    rw [String.toList_append, String.toList_append, String.toList_intercalate, List.append_assoc]
    rfl
  induction j using induct generalizing focus with
  | null =>
    rw [print, tokens]
    exact Lexes.word (List.cons_ne_nil _ _) rfl
  | bool b =>
    cases b with
    | false =>
      rw [print, tokens]
      exact Lexes.word (List.cons_ne_nil _ _) rfl
    | true =>
      rw [print, tokens]
      exact Lexes.word (List.cons_ne_nil _ _) rfl
  | int n => exact lexes_toString n
  | float bits => exact legible.elim
  | str s => exact Lexes.text s
  | arr items ih =>
    have each := allLegible_iff.mp legible.2
    rw [print, wrapped, printAll_eq, tokens, tokensAll_eq, List.map_map]
    refine Lexes.mark rfl (Lexes.between (Lexes.intercalate ?_) rfl Lexes.nil)
    rw [List.forall₂_map_left_iff, List.forall₂_map_right_iff, List.forall₂_same]
    exact fun j listed => ih j listed (each j listed)
  | obj fields ih =>
    have each := fieldsLegible_iff.mp legible.2
    rw [print, wrapped, printFields_eq, tokens, tokensFields_eq, List.map_map]
    refine Lexes.mark rfl (Lexes.between (Lexes.intercalate ?_) rfl Lexes.nil)
    rw [List.forall₂_map_left_iff, List.forall₂_map_right_iff, List.forall₂_same]
    intro field listed
    have text : (quote field.1 ++ ":" ++ print number field.2).toList =
        (quote field.1).toList ++ ':' :: (print number field.2).toList := by
      rw [String.toList_append, String.toList_append, List.append_assoc]
      rfl
    rw [Function.comp_apply, text]
    exact (Lexes.text field.1).between rfl (ih field listed (each field listed))

theorem tokensFrom_print {focus : Focus} {j : Json} (legible : Legible focus j) :
    tokensFrom [] .idle (print number j).toList = some (tokens number j) := by
  have whole := lexes_print number legible [] [] (by simp [Separated])
  rw [List.append_nil, List.append_nil] at whole
  rw [whole]
  simp [tokensFrom]

end TreeTyper.Json
