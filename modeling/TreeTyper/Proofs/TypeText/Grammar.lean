import TreeTyper.Proofs.TypeText.Cutting
import TreeTyper.Proofs.TypeText.Reading

/-!
# The grammar of types

What a text denotes is said by a grammar over its tokens; reading is a machine with a
stack.  A state of the machine stands for what is still to come: a type, if one is
expected, and then for each unfinished type the rest of its parameters and a bracket.
So the machine accepts exactly the tokens that the grammar derives.

    parse s = .ok t ↔ ∃ ts, Cut s.toList ts ∧ Denotes ts t        (parse_accepts_grammar)
-/

namespace TreeTyper.Ty

/-! ## The grammar -/

/-- The words that are no atoms. -/
def keywords : List String :=
  ["?", "Any", "Number", "@t", "@k", "@v", "List", "Set", "Dictionary", "Array", "Tuple", "Function"]

/-- A word is a length: ASCII digits whose value is below 2^64. -/
structure IsLength (w : String) (n : Nat) : Prop where
  notEmpty : w.toList ≠ []
  digits : ∀ c ∈ w.toList, c.isDigit
  value : Nat.ofDigitChars 10 w.toList 0 = n
  small : n < UInt64.size

mutual

/-- Some tokens denote a type. -/
inductive Denotes : List Token → Ty → Prop
  | hole : Denotes [.word "?"] .hole
  | any : Denotes [.word "Any"] .any
  | number : Denotes [.word "Number"] .number
  | element : Denotes [.word "@t"] (.placeholder .element)
  | key : Denotes [.word "@k"] (.placeholder .key)
  | value : Denotes [.word "@v"] (.placeholder .value)
  | atom {w : String} {c : Char} : w.toList.head? = some c → Text.isAlphabetic c → w ∉ keywords →
      Denotes [.word w] (.atom w)
  | list {ts : List Token} {t : Ty} : Denotes ts t →
      Denotes (.word "List" :: .openBracket :: (ts ++ [.closeBracket])) (.list t)
  | set {ts : List Token} {t : Ty} : Denotes ts t →
      Denotes (.word "Set" :: .openBracket :: (ts ++ [.closeBracket])) (.set t)
  | dictionary {ks vs : List Token} {k v : Ty} : Denotes ks k → Denotes vs v →
      Denotes (.word "Dictionary" :: .openBracket :: (ks ++ .comma :: vs ++ [.closeBracket]))
        (.dictionary k v)
  | array {ts : List Token} {t : Ty} {w : String} {n : Nat} : Denotes ts t → IsLength w n →
      Denotes (.word "Array" :: .openBracket :: (ts ++ [.comma, .word w, .closeBracket])) (.array t n)
  | emptyTuple : Denotes [.word "Tuple"] (.tuple [])
  | tuple {ts : List Token} {us : List Ty} : DenotesAll ts us →
      Denotes (.word "Tuple" :: .openBracket :: (ts ++ [.closeBracket])) (.tuple us)
  | function {ts : List Token} {ps : List Ty} {r : Ty} : DenotesAll ts (ps ++ [r]) →
      Denotes (.word "Function" :: .openBracket :: (ts ++ [.closeBracket])) (.function ps r)

/-- Some tokens denote one type or more, with commas between them. -/
inductive DenotesAll : List Token → List Ty → Prop
  | one {ts : List Token} {t : Ty} : Denotes ts t → DenotesAll ts [t]
  | more {ts ts' : List Token} {t : Ty} {us : List Ty} : Denotes ts t → DenotesAll ts' us →
      DenotesAll (ts ++ .comma :: ts') (t :: us)

end

mutual

/-- Tokens that denote a type are words, brackets and commas. -/
theorem Denotes.other_not_mem {ts : List Token} {t : Ty} (denotes : Denotes ts t) (c : Char) :
    .other c ∉ ts := by
  match denotes with
  | .hole | .any | .number | .element | .key | .value | .atom .. | .emptyTuple => simp
  | .list inner | .set inner | .array inner _ => simp [inner.other_not_mem c]
  | .dictionary index slot => simp [index.other_not_mem c, slot.other_not_mem c]
  | .tuple all | .function all => simp [all.other_not_mem c]

theorem DenotesAll.other_not_mem {ts : List Token} {us : List Ty} (all : DenotesAll ts us)
    (c : Char) : .other c ∉ ts := by
  match all with
  | .one first => exact first.other_not_mem c
  | .more first others => simp [first.other_not_mem c, others.other_not_mem c]

end

/-! ## Words -/

theorem length?_eq_some_iff {w : String} {n : Nat} : length? w = some n ↔ IsLength w n := by
  have value : w.toList.foldl (fun n c => 10 * n + (c.toNat - '0'.toNat)) 0 =
      Nat.ofDigitChars 10 w.toList 0 := rfl
  have isDigits : (w.toList.isEmpty || !w.toList.all Char.isDigit) = false ↔
      w.toList ≠ [] ∧ ∀ c ∈ w.toList, c.isDigit := by
    rw [Bool.or_eq_false_iff, Bool.not_eq_false', List.isEmpty_eq_false_iff, List.all_eq_true]
  rw [length?, value]
  dsimp only
  constructor
  · intro read
    split at read
    · cases read
    next digits =>
    obtain ⟨notEmpty, digits⟩ := isDigits.mp (Bool.eq_false_iff.mpr digits)
    split at read
    · next small =>
      cases read
      exact ⟨notEmpty, digits, rfl, small⟩
    · cases read
  · rintro ⟨notEmpty, digits, rfl, small⟩
    rw [if_neg (Bool.eq_false_iff.mp (isDigits.mpr ⟨notEmpty, digits⟩))]
    exact if_pos small

/-- How a head is written. -/
def Head.word : Head → String
  | list => "List"
  | set => "Set"
  | dictionary => "Dictionary"
  | tuple => "Tuple"
  | function => "Function"

theorem wordRole_word (h : Head) : wordRole h.word = .head h := by
  cases h <;> rfl

/-- A word that is no keyword begins an atom if its first character is a letter. -/
theorem wordRole_other {w : String} (noKeyword : w ∉ keywords) : wordRole w =
    if w.toList.head?.any Text.isAlphabetic then .whole (.atom w) else .none := by
  unfold wordRole
  split
  case h_13 =>
    split
    · next c _ chars => rw [chars, List.head?_cons, Option.any_some]
    · next noChars =>
      rw [noChars]
      rfl
  all_goals exact absurd (by simp [keywords]) noKeyword

theorem wordRole_atom {w : String} {c : Char} (first : w.toList.head? = some c)
    (letter : Text.isAlphabetic c) (noKeyword : w ∉ keywords) : wordRole w = .whole (.atom w) := by
  rw [wordRole_other noKeyword, first, Option.any_some, if_pos letter]

/-- A word denotes a type, or is a head or the array, or begins nothing. -/
theorem wordRole_cases (w : String) :
    (∃ t, wordRole w = .whole t ∧ Denotes [.word w] t) ∨
    (∃ h : Head, w = h.word ∧ wordRole w = .head h) ∨
    w = "Array" ∧ wordRole w = .array ∨ wordRole w = .none := by
  by_cases keyword : w ∈ keywords
  · simp only [keywords, List.mem_cons, List.not_mem_nil, or_false] at keyword
    rcases keyword with rfl | rfl | rfl | rfl | rfl | rfl | rfl | rfl | rfl | rfl | rfl | rfl
    · exact .inl ⟨_, rfl, .hole⟩
    · exact .inl ⟨_, rfl, .any⟩
    · exact .inl ⟨_, rfl, .number⟩
    · exact .inl ⟨_, rfl, .element⟩
    · exact .inl ⟨_, rfl, .key⟩
    · exact .inl ⟨_, rfl, .value⟩
    · exact .inr (.inl ⟨.list, rfl, rfl⟩)
    · exact .inr (.inl ⟨.set, rfl, rfl⟩)
    · exact .inr (.inl ⟨.dictionary, rfl, rfl⟩)
    · exact .inr (.inr (.inl ⟨rfl, rfl⟩))
    · exact .inr (.inl ⟨.tuple, rfl, rfl⟩)
    · exact .inr (.inl ⟨.function, rfl, rfl⟩)
  · by_cases letter : w.toList.head?.any Text.isAlphabetic
    · obtain ⟨c, first, isLetter⟩ := (Option.any_eq_true ..).mp letter
      exact .inl ⟨.atom w, wordRole_atom first isLetter keyword, .atom first isLetter keyword⟩
    · refine .inr (.inr (.inr ?_))
      rw [wordRole_other keyword, if_neg letter]

theorem denotes_of_wordRole {w : String} {t : Ty} (role : wordRole w = .whole t) :
    Denotes [.word w] t := by
  rcases wordRole_cases w with ⟨t', same, denotes⟩ | ⟨h, -, same⟩ | ⟨-, same⟩ | same
  · rw [same] at role
    cases role
    exact denotes
  all_goals
    rw [same] at role
    cases role

theorem word_of_head {w : String} {h : Head} (role : wordRole w = .head h) : w = h.word := by
  rcases wordRole_cases w with ⟨t, same, -⟩ | ⟨h', spelled, same⟩ | ⟨-, same⟩ | same
  case inr.inl =>
    rw [same] at role
    cases role
    exact spelled
  all_goals
    rw [same] at role
    cases role

theorem word_of_array {w : String} (role : wordRole w = .array) : w = "Array" := by
  rcases wordRole_cases w with ⟨t, same, -⟩ | ⟨h, -, same⟩ | ⟨spelled, -⟩ | same
  case inr.inr.inl => exact spelled
  all_goals
    rw [same] at role
    cases role

/-! ## Heads -/

theorem DenotesAll.singleton {ts : List Token} {t : Ty} (all : DenotesAll ts [t]) : Denotes ts t := by
  cases all with
  | one first => exact first
  | more _ rest => cases rest

theorem DenotesAll.pair {ts : List Token} {t u : Ty} (all : DenotesAll ts [t, u]) :
    ∃ ts₁ ts₂, ts = ts₁ ++ .comma :: ts₂ ∧ Denotes ts₁ t ∧ Denotes ts₂ u := by
  cases all with
  | more first rest => exact ⟨_, _, rfl, first, rest.singleton⟩

/-- A head over parameters that it accepts. -/
theorem denotes_of_build {ts : List Token} {us : List Ty} {h : Head} {t : Ty}
    (all : DenotesAll ts us) (built : h.build us = .ok t) :
    Denotes (.word h.word :: .openBracket :: (ts ++ [.closeBracket])) t := by
  unfold Head.build at built
  split at built
  · cases built
    exact .list all.singleton
  · cases built
  · cases built
    exact .set all.singleton
  · cases built
  · cases built
    obtain ⟨ks, vs, rfl, index, slot⟩ := all.pair
    exact .dictionary index slot
  · cases built
  · cases built
    exact .tuple all
  · split at built
    · next ret last =>
      cases built
      obtain ⟨params, rfl⟩ := List.getLast?_eq_some_iff.mp last
      rw [List.dropLast_concat]
      exact .function all
    · cases built

theorem denotes_of_bare {h : Head} {t : Ty} (built : h.build [] = .ok t) :
    Denotes [.word h.word] t := by
  cases h with
  | tuple =>
    cases built
    exact .emptyTuple
  | _ => cases built

/-! ## What is read is denoted -/

/-- What follows the first of some parameters. -/
def Continues (ts : List Token) (us : List Ty) : Prop :=
  ts = [] ∧ us = [] ∨ ∃ rest, ts = .comma :: rest ∧ DenotesAll rest us

theorem Denotes.continued {ts rest : List Token} {t : Ty} {us : List Ty} (first : Denotes ts t)
    (continues : Continues rest us) : DenotesAll (ts ++ rest) (t :: us) := by
  rcases continues with ⟨rfl, rfl⟩ | ⟨rest, rfl, others⟩
  · rw [List.append_nil]
    exact .one first
  · exact .more first others

/-- What follows the type `u` inside some unfinished types, if the outermost one is to be `t`. -/
def Closes : List Frame → Ty → List Token → Ty → Prop
  | [], u, ts, t => ts = [] ∧ u = t
  | .params h done :: stack, u, ts, t => ∃ rest us after v, ts = rest ++ .closeBracket :: after ∧
      Continues rest us ∧ h.build (done ++ u :: us) = .ok v ∧ Closes stack v after t
  | .arrayElement :: stack, u, ts, t => ∃ w n after,
      ts = .comma :: .word w :: .closeBracket :: after ∧ IsLength w n ∧
        Closes stack (.array u n) after t

/-- What comes where a type is expected inside some unfinished types. -/
def Opens (stack : List Frame) (ts : List Token) (t : Ty) : Prop :=
  ∃ first rest u, ts = first ++ rest ∧ Denotes first u ∧ Closes stack u rest t

/-- What is still to come in a state of the reading. -/
def Expects (found : Option Ty) (stack : List Frame) (ts : List Token) (t : Ty) : Prop :=
  match found with
  | none => Opens stack ts t
  | some u => Closes stack u ts t

theorem Reading.expects {found : Option Ty} {ts : List Token} {stack : List Frame} {t : Ty}
    (reading : Reading found ts stack t) : Expects found stack ts t := by
  induction reading with
  | done => exact ⟨rfl, rfl⟩
  | whole role _ ih => exact ⟨_, _, _, rfl, denotes_of_wordRole role, ih⟩
  | @enter w head rest stack t role _ ih =>
    obtain ⟨first, _, u, rfl, denotes, more, us, after, v, rfl, continues, built, closes⟩ := ih
    refine ⟨.word w :: .openBracket :: (first ++ more ++ [.closeBracket]), after, v, ?_, ?_, closes⟩
    · simp only [List.cons_append, List.append_assoc, List.nil_append]
    · rw [word_of_head role]
      exact denotes_of_build (denotes.continued continues) built
  | @bare w head rest stack u t role _ built _ ih =>
    refine ⟨[.word w], rest, u, rfl, ?_, ih⟩
    rw [word_of_head role]
    exact denotes_of_bare built
  | @enterArray w rest stack t role _ ih =>
    obtain ⟨first, _, u, rfl, denotes, digits, n, after, rfl, isLength, closes⟩ := ih
    refine ⟨.word w :: .openBracket :: (first ++ [.comma, .word digits, .closeBracket]), after,
      .array u n, ?_, ?_, closes⟩
    · simp only [List.cons_append, List.append_assoc, List.nil_append]
    · rw [word_of_array role]
      exact .array denotes isLength
  | leave built _ ih => exact ⟨[], [], _, _, rfl, .inl ⟨rfl, rfl⟩, built, ih⟩
  | @next head done rest stack u t _ ih =>
    obtain ⟨first, _, u', rfl, denotes, more, us, after, v, rfl, continues, built, closes⟩ := ih
    refine ⟨.comma :: (first ++ more), u' :: us, after, v, ?_,
      .inr ⟨_, rfl, denotes.continued continues⟩, ?_, closes⟩
    · rw [List.cons_append, List.append_assoc]
    · rwa [List.append_assoc] at built
  | leaveArray read _ ih => exact ⟨_, _, _, rfl, length?_eq_some_iff.mp read, ih⟩

/-! ## What is denoted is read -/

/-- Whatever may follow a type: no bracket that opens parameters. -/
def Follows (rest : List Token) : Prop := ∀ rest', rest ≠ .openBracket :: rest'

/-- Some tokens are read as a type. -/
def IsRead (ts : List Token) (t : Ty) : Prop :=
  ∀ rest stack, Follows rest → expect (ts ++ rest) stack = resume t rest stack

/-- Some tokens are read as the remaining parameters of a head. -/
def AreRead (ts : List Token) (us : List Ty) : Prop :=
  ∀ h done rest stack, expect (ts ++ .closeBracket :: rest) (.params h done :: stack) =
    (h.build (done ++ us)).bind fun v => resume v rest stack

section Parameters

variable {ts ts' : List Token} {t : Ty} {us : List Ty}

theorem IsRead.one (first : IsRead ts t) : AreRead ts [t] := by
  intro h done rest stack
  rw [first _ _ (nofun : Follows (.closeBracket :: _)), resume_close]

theorem IsRead.more (first : IsRead ts t) (others : AreRead ts' us) :
    AreRead (ts ++ .comma :: ts') (t :: us) := by
  intro h done rest stack
  rw [List.append_assoc, List.cons_append, first _ _ (nofun : Follows (.comma :: _)), resume_comma,
    others, List.append_assoc]
  rfl

/-- A head is read with its parameters. -/
theorem AreRead.applied (all : AreRead ts us) (h : Head) (built : h.build us = .ok t) :
    IsRead (.word h.word :: .openBracket :: (ts ++ [.closeBracket])) t := by
  intro rest stack _
  rw [List.cons_append, List.cons_append, List.append_assoc, expect_head (wordRole_word h)]
  refine (all h [] rest stack).trans ?_
  rw [List.nil_append, built]
  rfl

theorem isRead_array (inner : IsRead ts t) {w : String} {n : Nat} (isLength : IsLength w n) :
    IsRead (.word "Array" :: .openBracket :: (ts ++ [.comma, .word w, .closeBracket]))
      (.array t n) := by
  intro rest stack _
  rw [List.cons_append, List.cons_append, List.append_assoc, expect_array rfl, List.cons_append,
    inner _ _ (nofun : Follows (.comma :: _))]
  exact resume_length (length?_eq_some_iff.mpr isLength)

end Parameters

mutual

theorem Denotes.isRead {ts : List Token} {t : Ty} (denotes : Denotes ts t) : IsRead ts t := by
  match denotes with
  | .hole | .any | .number | .element | .key | .value => exact fun _ _ _ => expect_whole rfl
  | .atom first letter noKeyword =>
    exact fun _ _ _ => expect_whole (wordRole_atom first letter noKeyword)
  | .list inner => exact inner.isRead.one.applied .list rfl
  | .set inner => exact inner.isRead.one.applied .set rfl
  | .dictionary index slot => exact (index.isRead.more slot.isRead.one).applied .dictionary rfl
  | .array inner isLength => exact isRead_array inner.isRead isLength
  | .emptyTuple =>
    exact fun _ _ follows => expect_bare (rfl : wordRole "Tuple" = .head .tuple) follows
  | .tuple all => exact all.areRead.applied .tuple rfl
  | .function all =>
    refine all.areRead.applied .function ?_
    rw [Head.build, List.getLast?_concat, List.dropLast_concat]

theorem DenotesAll.areRead {ts : List Token} {us : List Ty} (all : DenotesAll ts us) :
    AreRead ts us := by
  match all with
  | .one first => exact first.isRead.one
  | .more first others => exact first.isRead.more others.areRead

end

/-! ## Top theorem -/

theorem expect_iff {ts : List Token} {t : Ty} : expect ts [] = .ok t ↔ Denotes ts t := by
  constructor
  · intro read
    obtain ⟨first, rest, u, rfl, denotes, rfl, rfl⟩ := (reading_of_expect read).expects
    rwa [List.append_nil]
  · intro denotes
    have read := denotes.isRead [] [] nofun
    rwa [List.append_nil, resume] at read

/-- A text is read as a type exactly if it can be cut into tokens that denote the type.  What is read
depends on the tokens alone, and any other text is refused for some reason. -/
theorem parse_accepts_grammar (s : String) :
    (∀ t, parse s = .ok t ↔ ∃ ts, Cut s.toList ts ∧ Denotes ts t) ∧
    (∀ ts ts', Cut s.toList ts → Cut s.toList ts' → ts' = ts) ∧
    (∀ ts s', Cut s.toList ts → Cut s'.toList ts → (parse s').toOption = (parse s).toOption) ∧
    ((¬∃ ts t, Cut s.toList ts ∧ Denotes ts t) → ∃ reason, parse s = .error ⟨s, reason⟩) := by
  have reads : ∀ t, parse s = .ok t ↔ ∃ ts, Cut s.toList ts ∧ Denotes ts t := by
    intro t
    rw [parse_eq_ok_iff, expect_iff]
    constructor
    · intro denotes
      exact ⟨_, cut_iff.mpr ⟨rfl, denotes.other_not_mem⟩, denotes⟩
    · rintro ⟨ts, cut, denotes⟩
      rwa [(cut_iff.mp cut).1]
  refine ⟨reads, fun ts ts' cut cut' => ?_, fun ts s' cut cut' => ?_, fun nothing => ?_⟩
  · rw [← (cut_iff.mp cut).1, ← (cut_iff.mp cut').1]
  · unfold parse
    rw [(cut_iff.mp cut).1, (cut_iff.mp cut').1]
    cases expect ts [] <;> rfl
  · rcases read : expect (tokens s) [] with reason | t
    · exact ⟨reason, congrArg (Except.mapError _) read⟩
    · obtain ⟨ts, cut, denotes⟩ := (reads t).mp (parse_eq_ok_iff.mpr read)
      exact absurd ⟨ts, t, cut, denotes⟩ nothing

/-- A text with blanks around its tokens, one without them, and one whose number is not written in
ASCII digits. -/
theorem parse_accepts_grammar_shelf :
    parse " Dictionary[Été ,Array[ Function[ ? ], 007 ]]\u2003" =
      .ok (dictionary (atom "Été") (array (function [] hole) 7)) ∧
    (parse "Dictionary[Été,Array[Function[?],007]]").toOption =
      some (dictionary (atom "Été") (array (function [] hole) 7)) ∧
    ∃ reason, parse "Array[Int, ٣]" = .error ⟨"Array[Int, ٣]", reason⟩ := by
  have isLength : IsLength "007" 7 := length?_eq_some_iff.mp rfl
  have index : Denotes [.word "Été"] (atom "Été") :=
    .atom (rfl : _ = some 'É') (by decide) (by decide)
  have callback : Denotes [.word "Function", .openBracket, .word "?", .closeBracket]
      (function [] hole) := @Denotes.function [.word "?"] [] hole (.one .hole)
  have denotes : Denotes (tokens "Dictionary[Été,Array[Function[?],007]]")
      (dictionary (atom "Été") (array (function [] hole) 7)) :=
    Denotes.dictionary index (.array callback isLength)
  have cut : ∀ s, tokens s = tokens "Dictionary[Été,Array[Function[?],007]]" →
      Cut s.toList (tokens "Dictionary[Été,Array[Function[?],007]]") :=
    fun s same => cut_iff.mpr ⟨same, denotes.other_not_mem⟩
  obtain ⟨reads, -, alike, -⟩ :=
    parse_accepts_grammar " Dictionary[Été ,Array[ Function[ ? ], 007 ]]\u2003"
  obtain ⟨readsNumber, -, -, refuses⟩ := parse_accepts_grammar "Array[Int, ٣]"
  have cutShelf := cut " Dictionary[Été ,Array[ Function[ ? ], 007 ]]\u2003" (by decide +kernel)
  have read := (reads _).mpr ⟨_, cutShelf, denotes⟩
  refine ⟨read, ?_, refuses ?_⟩
  · rw [alike _ _ cutShelf (cut _ rfl), read]
    rfl
  · rintro ⟨ts, t, both⟩
    cases (readsNumber t).mpr ⟨ts, both⟩

end TreeTyper.Ty
