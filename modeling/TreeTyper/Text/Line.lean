/-!
# Lines of a text

`pieces` cuts a text at every line feed and is never empty; `lines` is the list
of terminated lines, where a line feed or a carriage return with a line feed
ends a line and an empty rest after the last one is no line.

    List.intercalate ['\n'] (pieces cs) = cs        (intercalate_pieces)
-/

namespace TreeTyper.Text

/-- The parts of a text between its line feeds. -/
def pieces : List Char → List (List Char)
  | [] => [[]]
  | c :: rest =>
    if c = '\n' then [] :: pieces rest
    else
      match pieces rest with
      | [] => [[c]]
      | p :: ps => (c :: p) :: ps

/-- Removes every `c` at the end. -/
def trimEndOf (c : Char) (cs : List Char) : List Char :=
  (cs.reverse.dropWhile (· == c)).reverse

/-- Removes one carriage return at the end. -/
def dropReturn (cs : List Char) : List Char :=
  match cs.reverse with
  | '\r' :: rest => rest.reverse
  | _ => cs

def terminated : List (List Char) → List (List Char)
  | [] => []
  | [last] => if last.isEmpty then [] else [last]
  | p :: ps => dropReturn p :: terminated ps

def lines (s : String) : List String := (terminated (pieces s.toList)).map String.ofList

/-- Every line of `s` behind `pad`. -/
def indent (pad : String) (s : String) : String :=
  String.intercalate "\n" ((lines s).map (pad ++ ·))

/-! ## Lemmas -/

theorem pieces_ne_nil (cs : List Char) : pieces cs ≠ [] := by
  cases cs with
  | nil => simp [pieces]
  | cons c rest =>
    unfold pieces
    split
    · simp
    · split <;> simp

theorem intercalate_pieces (cs : List Char) : List.intercalate ['\n'] (pieces cs) = cs := by
  induction cs with
  | nil => rfl
  | cons c rest ih =>
    unfold pieces
    cases h : pieces rest with
    | nil => exact absurd h (pieces_ne_nil rest)
    | cons p ps =>
      rw [h] at ih
      split
      · rename_i hc
        subst hc
        simpa [List.intercalate] using ih
      · cases ps <;> simp_all [List.intercalate]

end TreeTyper.Text
