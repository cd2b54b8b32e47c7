import TreeTyper.Ty.Parse

/-!
# Steps of reading a type

A type is read in steps, each of which takes one token or two: a word is a whole type or
opens one, a bracket closes what is open, a comma goes on to the next parameter.  `Reading`
lists the steps that do not fail, so that what holds of everything that was read follows
by induction on them.

    expect tokens stack = .ok t → Reading none tokens stack t       (reading_of_expect)
-/

namespace TreeTyper.Ty

/-! ## Steps of reading -/

section Steps

variable {w : String} {head : Head} {done : List Ty} {rest : List Token} {stack : List Frame}
  {n : Nat} {t u v : Ty}

theorem expect_whole (role : wordRole w = .whole u) :
    expect (.word w :: rest) stack = resume u rest stack := by
  unfold expect
  simp only [role]

theorem expect_head (role : wordRole w = .head head) :
    expect (.word w :: .openBracket :: rest) stack = expect rest (.params head [] :: stack) := by
  rw [expect.eq_def]
  simp only [role]

theorem expect_bare (role : wordRole w = .head head)
    (alone : ∀ rest', rest ≠ .openBracket :: rest') :
    expect (.word w :: rest) stack = (head.build []).bind fun u => resume u rest stack := by
  rw [expect.eq_def]
  simp only [role]
  rfl

theorem expect_array (role : wordRole w = .array) :
    expect (.word w :: .openBracket :: rest) stack = expect rest (.arrayElement :: stack) := by
  rw [expect.eq_def]
  simp only [role]

theorem resume_close : resume u (.closeBracket :: rest) (.params head done :: stack) =
    (head.build (done ++ [u])).bind fun v => resume v rest stack := by
  rw [resume]
  rfl

theorem resume_comma : resume u (.comma :: rest) (.params head done :: stack) =
    expect rest (.params head (done ++ [u]) :: stack) := by
  rw [resume]

theorem resume_length (read : length? w = some n) :
    resume u (.comma :: .word w :: .closeBracket :: rest) (.arrayElement :: stack) =
      resume (.array u n) rest stack := by
  rw [resume.eq_def]
  simp only [read]

end Steps

/-! ## Ways of reading -/

/-- The ways in which a type is read from tokens: from the start of a type, or after a finished one,
over the types that are unfinished there. -/
inductive Reading : Option Ty → List Token → List Frame → Ty → Prop
  | done {t : Ty} : Reading (some t) [] [] t
  | whole {w : String} {rest : List Token} {stack : List Frame} {u t : Ty} :
      wordRole w = .whole u → Reading (some u) rest stack t →
      Reading none (.word w :: rest) stack t
  /-- A head with parameters. -/
  | enter {w : String} {head : Head} {rest : List Token} {stack : List Frame} {t : Ty} :
      wordRole w = .head head → Reading none rest (.params head [] :: stack) t →
      Reading none (.word w :: .openBracket :: rest) stack t
  /-- A head alone. -/
  | bare {w : String} {head : Head} {rest : List Token} {stack : List Frame} {u t : Ty} :
      wordRole w = .head head → (∀ rest', rest ≠ .openBracket :: rest') →
      head.build [] = .ok u → Reading (some u) rest stack t →
      Reading none (.word w :: rest) stack t
  | enterArray {w : String} {rest : List Token} {stack : List Frame} {t : Ty} :
      wordRole w = .array → Reading none rest (.arrayElement :: stack) t →
      Reading none (.word w :: .openBracket :: rest) stack t
  | leave {head : Head} {done : List Ty} {rest : List Token} {stack : List Frame} {u v t : Ty} :
      head.build (done ++ [u]) = .ok v → Reading (some v) rest stack t →
      Reading (some u) (.closeBracket :: rest) (.params head done :: stack) t
  | next {head : Head} {done : List Ty} {rest : List Token} {stack : List Frame} {u t : Ty} :
      Reading none rest (.params head (done ++ [u]) :: stack) t →
      Reading (some u) (.comma :: rest) (.params head done :: stack) t
  | leaveArray {w : String} {n : Nat} {rest : List Token} {stack : List Frame} {u t : Ty} :
      length? w = some n → Reading (some (.array u n)) rest stack t →
      Reading (some u) (.comma :: .word w :: .closeBracket :: rest) (.arrayElement :: stack) t

/-- Reading that succeeds takes one of these ways, by the cases of its two functions. -/
theorem readings :
    (∀ tokens stack, ∀ t, expect tokens stack = .ok t → Reading none tokens stack t) ∧
    ∀ u tokens stack, ∀ t, resume u tokens stack = .ok t → Reading (some u) tokens stack t := by
  apply expect.mutual_induct
    (fun tokens stack => ∀ t, expect tokens stack = .ok t → Reading none tokens stack t)
    (fun u tokens stack => ∀ t, resume u tokens stack = .ok t → Reading (some u) tokens stack t)
  case case1 =>
    intro w rest stack u role ih t read
    exact .whole role (ih t (expect_whole role ▸ read))
  case case2 =>
    intro w stack head role rest ih t read
    exact .enter role (ih t (expect_head role ▸ read))
  case case3 =>
    intro w stack head role rest alone ih t read
    rw [expect_bare role alone] at read
    cases built : head.build [] with
    | error reason =>
      rw [built] at read
      cases read
    | ok u =>
      rw [built] at read
      exact .bare role alone built (ih u t read)
  case case4 =>
    intro w stack role rest ih t read
    exact .enterArray role (ih t (expect_array role ▸ read))
  case case8 =>
    intro u t read
    cases read
    exact .done
  case case10 =>
    intro u rest head done stack ih t read
    rw [resume_close] at read
    cases built : head.build (done ++ [u]) with
    | error reason =>
      rw [built] at read
      cases read
    | ok v =>
      rw [built] at read
      exact .leave built (ih v t read)
  case case11 =>
    intro u rest head done stack ih t read
    exact .next (ih t (resume_comma ▸ read))
  case case13 =>
    intro u w stack n length rest ih t read
    exact .leaveArray length (ih t (resume_length length ▸ read))
  -- In every other case a token does not fit.
  case case9 =>
    intro u head tail t read
    cases read
  all_goals
    intros
    rename_i read
    first | rw [expect.eq_def] at read | rw [resume.eq_def] at read
    simp only [*] at read
    cases read

theorem reading_of_expect {tokens : List Token} {stack : List Frame} {t : Ty}
    (read : expect tokens stack = .ok t) : Reading none tokens stack t :=
  readings.1 tokens stack t read

/-- A text is read as a type if its tokens are. -/
theorem parse_eq_ok_iff {s : String} {t : Ty} : parse s = .ok t ↔ expect (tokens s) [] = .ok t := by
  unfold parse
  cases expect (tokens s) [] with
  | ok u =>
    constructor
    · rintro ⟨⟩
      rfl
    · rintro ⟨⟩
      rfl
  | error reason => exact iff_of_false nofun nofun

end TreeTyper.Ty
