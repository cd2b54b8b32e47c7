import TreeTyper.Proofs.Json.Lexing

/-!
# Printed values are read back

A value without floats whose integers fit 64 bits, all of which is in focus, is read back from its
printed text exactly when its containers nest no deeper than the reader allows; otherwise the text
is refused.

    Legible focus j →
      parse? maxDepth focus (print number j) = if nesting j ≤ maxDepth then some j else none
                                                                              (parse?_print)

The reader is followed token by token: `expect_tokens` says what a whole value does to the stack of
unfinished containers, `resume_items` and `resume_fields` what the rest of a container does.
-/

namespace TreeTyper

namespace Json

/-! ## Definitions -/

mutual

/-- The number of containers around the innermost one, that one included. -/
def nesting : Json → Nat
  | arr items => nestingOfAll items + 1
  | obj fields => nestingOfFields fields + 1
  | _ => 0

def nestingOfAll : List Json → Nat
  | [] => 0
  | j :: js => max (nesting j) (nestingOfAll js)

def nestingOfFields : List (String × Json) → Nat
  | [] => 0
  | (_, j) :: rest => max (nesting j) (nestingOfFields rest)

end

variable {number : UInt64 → String}

/-! ## Words and texts -/

/-- A number text is none of the three literals. -/
theorem literal?_of_ofDecimal? {cs : List Char} {j : Json} (number : ofDecimal? cs = some j) :
    literal? cs = none := by
  have other : ∀ {word}, ofDecimal? word = none → cs ≠ word := by
    rintro word refused rfl
    rw [refused] at number
    cases number
  rw [literal?, if_neg (other rfl), if_neg (other rfl), if_neg (other rfl)]

theorem ofWord?_toString {focus : Focus} (inFocus : focus.isNothing = false) {n : Int}
    (inRange : InRange n) : ofWord? focus (toString n).toList = some (.int n) := by
  have number := ofDecimal?_toString inRange
  rw [ofWord?, literal?_of_ofDecimal? number, inFocus]
  exact number

theorem ofText?_piecesOf {focus : Focus} (inFocus : focus.isNothing = false) (s : String) :
    ofText? focus (piecesOf s) = some s := by
  rw [ofText?, inFocus, textOf?_piecesOf]
  rfl

theorem addField_eq {focus : Focus} {name : String} (inFocus : (focus.field name).isNothing = false)
    (fields : List (String × Json)) (v : Json) :
    addField focus fields name v = (name, v) :: fields := by
  rw [addField, inFocus]
  rfl

/-! ## Containers -/

/-- A list with separators begins with its first part, and every other one follows a separator. -/
theorem intercalate_cons {α : Type} (mark : α) (first : List α) (others : List (List α)) :
    List.intercalate [mark] (first :: others) = first ++ others.flatMap (mark :: ·) := by
  induction others generalizing first with
  | nil => simp
  | cons second others ih =>
    rw [List.intercalate_cons_cons, ih, List.flatMap_cons]
    simp

/-- The tokens of a value do not begin with the end of an array. -/
theorem tokens_eq_cons (j : Json) : ∃ t ts, tokens number j = t :: ts ∧ t ≠ .closeBracket := by
  cases j with
  | bool b => cases b <;> exact ⟨_, _, rfl, by simp⟩
  | _ => exact ⟨_, _, rfl, by simp⟩

section Reader

variable {maxDepth : Nat} {focus : Focus} {rest : List Token} {stack : List Frame}

theorem hasRoom_eq (inFocus : focus.isNothing = false) :
    hasRoom maxDepth focus stack = decide (stack.length < maxDepth) := by
  rw [hasRoom, inFocus, Bool.false_or]

/-- No container is opened when as many as allowed are open. -/
theorem expect_full (inFocus : focus.isNothing = false) (full : ¬ stack.length < maxDepth) :
    expect maxDepth focus (.openBracket :: rest) stack = none ∧
      expect maxDepth focus (.openBrace :: rest) stack = none := by
  have refused : hasRoom maxDepth focus stack = false := by
    rw [hasRoom_eq inFocus, decide_eq_false full]
  constructor
  · rw [expect.eq_def]
    simp only [refused]
    rfl
  · rw [expect.eq_def]
    simp only [refused]
    rfl

theorem expect_item (inFocus : focus.isNothing = false) (room : stack.length < maxDepth)
    (j : Json) :
    expect maxDepth focus (.openBracket :: (tokens number j ++ rest)) stack =
      expect maxDepth focus.item (tokens number j ++ rest) (.arr focus [] :: stack) := by
  obtain ⟨t, ts, begins, item⟩ := tokens_eq_cons j
  have other : ∀ rest', tokens number j ++ rest ≠ .closeBracket :: rest' := by
    rw [begins]
    exact fun _ same => item (List.cons.inj same).1
  rw [expect.eq_4 _ _ _ _ other, hasRoom_eq inFocus, decide_eq_true room]
  rfl

theorem expect_field (inFocus : focus.isNothing = false) (room : stack.length < maxDepth)
    (name : String) :
    expect maxDepth focus (.openBrace :: .text (piecesOf name) :: .colon :: rest) stack =
      expect maxDepth (focus.field name) rest (.obj focus [] name :: stack) := by
  rw [expect, hasRoom_eq inFocus, decide_eq_true room, ofText?_piecesOf inFocus]
  rfl

theorem ite_and_then {α : Type} {depth first others : Nat} (x : Option α) :
    (if depth + first ≤ maxDepth then if depth + others ≤ maxDepth then x else none else none) =
      if depth + max first others ≤ maxDepth then x else none := by
  by_cases fits : depth + max first others ≤ maxDepth
  · rw [if_pos fits, if_pos (by omega), if_pos (by omega)]
  · rw [if_neg fits]
    split
    · rw [if_neg (by omega)]
    · rfl

/-- What the reader does with the tokens of a value that its text denotes: it goes on with the
value, unless its containers and the open ones are too many. -/
def Follows (number : UInt64 → String) (maxDepth : Nat) (j : Json) : Prop :=
  ∀ focus rest stack, Legible focus j → stack.length ≤ maxDepth →
    expect maxDepth focus (tokens number j ++ rest) stack =
      if stack.length + nesting j ≤ maxDepth then resume maxDepth j rest stack else none

/-- The rest of an array, after the value `v`. -/
theorem resume_items {items : List Json} (follows : ∀ j ∈ items, Follows number maxDepth j)
    (legible : AllLegible focus.item items) (room : stack.length < maxDepth) (v : Json)
    (found : List Json) :
    resume maxDepth v
        ((items.map (tokens number)).flatMap (.comma :: ·) ++ .closeBracket :: rest)
        (.arr focus found :: stack) =
      if stack.length + 1 + nestingOfAll items ≤ maxDepth then
        resume maxDepth (.arr (found.reverse ++ v :: items)) rest stack
      else none := by
  induction items generalizing v found with
  | nil =>
    rw [nestingOfAll, if_pos (by omega)]
    simp [resume]
  | cons j items ih =>
    obtain ⟨first, others⟩ := List.forall_mem_cons.mp follows
    have deeper : (Frame.arr focus (v :: found) :: stack).length ≤ maxDepth := room
    simp only [List.map_cons, List.flatMap_cons, List.cons_append, List.append_assoc]
    rw [resume, first _ _ _ legible.1 deeper, ih others legible.2, List.length_cons, ite_and_then,
      nestingOfAll, List.reverse_cons, List.append_assoc]
    rfl

/-- The rest of an object, after the value `v` of the field `name`. -/
theorem resume_fields {fields : List (String × Json)}
    (follows : ∀ field ∈ fields, Follows number maxDepth field.2) (inFocus : focus.isNothing = false)
    (legible : FieldsLegible focus fields) (room : stack.length < maxDepth) (v : Json)
    {name : String} (seen : (focus.field name).isNothing = false) (found : List (String × Json)) :
    resume maxDepth v
        ((fields.map fun field => .text (piecesOf field.1) :: .colon :: tokens number field.2).flatMap
          (.comma :: ·) ++ .closeBrace :: rest)
        (.obj focus found name :: stack) =
      if stack.length + 1 + nestingOfFields fields ≤ maxDepth then
        resume maxDepth (.obj (found.reverse ++ (name, v) :: fields)) rest stack
      else none := by
  induction fields generalizing v name found with
  | nil =>
    rw [nestingOfFields, if_pos (by omega)]
    simp [resume, addField_eq seen]
  | cons field fields ih =>
    obtain ⟨first, others⟩ := List.forall_mem_cons.mp follows
    obtain ⟨next, j⟩ := field
    have deeper : (Frame.obj focus ((name, v) :: found) next :: stack).length ≤ maxDepth := room
    simp only [List.map_cons, List.flatMap_cons, List.cons_append, List.append_assoc]
    rw [resume, ofText?_piecesOf inFocus]
    simp only [addField_eq seen]
    rw [first _ _ _ legible.1 deeper, ih others legible.2 _ legible.1.inFocus, List.length_cons,
      ite_and_then, nestingOfFields, List.reverse_cons, List.append_assoc]
    rfl

/-- A word or a string is followed by what comes after it. -/
theorem follows_leaf {t : Token} {j : Json} (leaf : nesting j = 0) (one : tokens number j = [t])
    (read : ∀ focus rest stack, Legible focus j →
      expect maxDepth focus (t :: rest) stack = resume maxDepth j rest stack) :
    Follows number maxDepth j := by
  intro focus rest stack legible room
  rw [one, leaf, Nat.add_zero, if_pos room]
  exact read focus rest stack legible

theorem follows_arr {items : List Json} (each : ∀ j ∈ items, Follows number maxDepth j) :
    Follows number maxDepth (.arr items) := by
  intro focus rest stack legible _
  obtain ⟨inFocus, legible⟩ := legible
  rw [nesting, tokens, tokensAll_eq, List.cons_append]
  by_cases room : stack.length < maxDepth
  case neg => rw [(expect_full inFocus room).1, if_neg (by omega)]
  cases items with
  | nil =>
    rw [nestingOfAll, if_pos (by omega)]
    simp [expect, hasRoom_eq inFocus, room]
  | cons j items =>
    obtain ⟨first, others⟩ := List.forall_mem_cons.mp each
    have deeper : (Frame.arr focus [] :: stack).length ≤ maxDepth := room
    rw [List.map_cons, intercalate_cons, List.append_assoc, List.append_assoc,
      expect_item inFocus room, first _ _ _ legible.1 deeper, List.singleton_append,
      resume_items others legible.2 room, List.length_cons, ite_and_then, nestingOfAll,
      Nat.add_right_comm, Nat.add_assoc]
    rfl

theorem follows_obj {fields : List (String × Json)}
    (each : ∀ field ∈ fields, Follows number maxDepth field.2) : Follows number maxDepth (.obj fields) := by
  intro focus rest stack legible _
  obtain ⟨inFocus, legible⟩ := legible
  rw [nesting, tokens, tokensFields_eq, List.cons_append]
  by_cases room : stack.length < maxDepth
  case neg => rw [(expect_full inFocus room).2, if_neg (by omega)]
  cases fields with
  | nil =>
    rw [nestingOfFields, if_pos (by omega)]
    simp [expect, hasRoom_eq inFocus, room]
  | cons field fields =>
    obtain ⟨first, others⟩ := List.forall_mem_cons.mp each
    obtain ⟨name, j⟩ := field
    have deeper : (Frame.obj focus [] name :: stack).length ≤ maxDepth := room
    rw [List.map_cons, intercalate_cons, List.append_assoc, List.append_assoc, List.cons_append,
      List.cons_append, expect_field inFocus room, first _ _ _ legible.1 deeper,
      List.singleton_append, resume_fields others inFocus legible.2 room _ legible.1.inFocus,
      List.length_cons, ite_and_then, nestingOfFields, Nat.add_right_comm, Nat.add_assoc]
    rfl

/-- A value is followed through its tokens. -/
theorem follows (number : UInt64 → String) (maxDepth : Nat) (j : Json) : Follows number maxDepth j := by
  induction j using induct with
  | null => exact follows_leaf rfl rfl fun _ _ _ _ => rfl
  | bool b => cases b <;> exact follows_leaf rfl rfl fun _ _ _ _ => rfl
  | int n =>
    refine follows_leaf rfl rfl ?_
    rintro focus rest stack ⟨inFocus, inRange⟩
    rw [expect, ofWord?_toString inFocus inRange]
  | float bits =>
    intro focus rest stack legible
    exact legible.elim
  | str s =>
    refine follows_leaf rfl rfl ?_
    intro focus rest stack inFocus
    rw [expect, ofText?_piecesOf inFocus]
  | arr items ih => exact follows_arr ih
  | obj fields ih => exact follows_obj ih

end Reader

/-- A value that its text denotes is read back from it, if its containers nest no deeper than the
reader allows; otherwise its text is refused. -/
theorem parse?_print (maxDepth : Nat) {focus : Focus} {j : Json} (legible : Legible focus j) :
    parse? maxDepth focus (print number j) = if nesting j ≤ maxDepth then some j else none := by
  have whole := follows number maxDepth j focus [] [] legible (Nat.zero_le maxDepth)
  rw [List.append_nil, List.length_nil, Nat.zero_add, resume] at whole
  rw [parse?, tokensFrom_print legible]
  exact whole

end Json

/-! ## Ways to read and write texts -/

/-- The text of a value is read back as the value as long as its containers nest at most `limit`
deep, and is refused if they nest deeper. -/
structure JsonText.ReadsBack (text : JsonText) (limit : Nat) : Prop where
  shallow : ∀ {focus : Json.Focus} {j : Json}, Json.Legible focus j → j.nesting ≤ limit →
    text.read focus (text.write j) = some j
  deep : ∀ {focus : Json.Focus} {j : Json}, Json.Legible focus j → limit < j.nesting →
    text.read focus (text.write j) = none

theorem Json.plainText_readsBack (number : UInt64 → String) (limit : Nat) :
    (plainText number limit).ReadsBack limit := by
  constructor
  · intro focus j legible bound
    exact (parse?_print limit legible).trans (if_pos bound)
  · intro focus j legible deeper
    exact (parse?_print limit legible).trans (if_neg (Nat.not_le.mpr deeper))

end TreeTyper
