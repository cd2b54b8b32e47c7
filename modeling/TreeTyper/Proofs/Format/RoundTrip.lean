import TreeTyper.Proofs.Format.Floats

/-!
# The tree format round-trips

What is written for a tree without float literals is read back as the same tree.  For values this
holds at any depth and for all forms.  For texts it is said of every way to write and read them
that reads back what nests at most `limit` deep and refuses what nests deeper (`ReadsBack`): a tree
is read back from its text exactly when the written containers nest at most `limit` deep, and is
refused otherwise.

    m.isFloatFree → Module.read? m.json = some m
    m.isFloatFree → Module.parse? text (text.write m.json) =
      if m.json.nesting ≤ limit then some m else none

Reading, writing and reading again is then reading once.  A text leaves out what has a default, so
what is written for its tree can nest deeper than the text does.
-/

namespace TreeTyper.Tree

open Json

variable {text : JsonText} {limit : Nat}

/-- A tree without floats is read back from its text, or is too deep for it. -/
theorem Module.parse?_write (reads : text.ReadsBack limit) (m : Module) (free : m.isFloatFree) :
    Module.parse? text (text.write m.json) =
      if m.json.nesting ≤ limit then some m else none := by
  have legible := m.legible free
  rw [Module.parse?]
  split
  · next shallow => rw [reads.shallow legible shallow, Option.bind_some, Module.read?_json m free]
  · next deep => rw [reads.deep legible (Nat.lt_of_not_le deep), Option.bind_none]

/-- Reading gives back the tree without float literals that was written: from the value always,
from the text if its containers nest at most `limit` deep.  So such a tree that was read from a
value or a text is read again from what is written for it. -/
theorem tree_round_trips (text : JsonText) (limit : Nat) (reads : text.ReadsBack limit) :
    (∀ m : Module, m.isFloatFree → Module.read? m.json = some m) ∧
    (∀ m : Module, m.isFloatFree → Module.parse? text (text.write m.json) =
      if m.json.nesting ≤ limit then some m else none) ∧
    (∀ (j : Json) (m : Module), Module.read? j = some m → m.isFloatFree →
      Module.read? m.json = Module.read? j) ∧
    ∀ (source : String) (m : Module), Module.parse? text source = some m → m.isFloatFree →
      m.json.nesting ≤ limit →
      Module.parse? text (text.write m.json) = Module.parse? text source := by
  refine ⟨Module.read?_json, Module.parse?_write reads, ?_, ?_⟩
  · intro j m read free
    rw [Module.read?_json m free, read]
  · intro source m read free shallow
    rw [Module.parse?_write reads m free, if_pos shallow, read]

/-- A list in a list, and so on inwards. -/
def nestedLists : (inside : Nat) → Expr
  | 0 => ⟨.list [], ⟨1, 0⟩⟩
  | inside + 1 => ⟨.list [nestedLists inside], ⟨1, 0⟩⟩

/-- A module of one expression, of lists nested one in the other. -/
def listsModule (inside : Nat) : Module := ⟨[⟨.expr (nestedLists inside), ⟨1, 0⟩⟩]⟩

/-- A module of one statement, without its position. -/
def unplacedPass : Json := .obj [("body", .arr [.obj [("node", .str "pass")]])]

/-- Texts whose containers nest at most 127 deep. -/
def shallowText : JsonText := Json.plainText (fun _ => "null") 127

/-- Lists nested 62 deep are read back from their text; a module that is read from a text without
positions is read again from the text that has them. -/
theorem tree_round_trips_lists :
    shallowText.ReadsBack 127 ∧
    ((listsModule 61).isFloatFree ∧ Module.read? (listsModule 61).json = some (listsModule 61) ∧
      Module.parse? shallowText (shallowText.write (listsModule 61).json) =
        some (listsModule 61)) ∧
    ∃ m : Module, Module.read? unplacedPass = some m ∧ m.isFloatFree ∧
      Module.read? m.json = Module.read? unplacedPass ∧
      Module.parse? shallowText (shallowText.write unplacedPass) = some m ∧
      m.json.nesting ≤ 127 ∧
      Module.parse? shallowText (shallowText.write m.json) =
        Module.parse? shallowText (shallowText.write unplacedPass) := by
  have reads : shallowText.ReadsBack 127 := Json.plainText_readsBack _ 127
  obtain ⟨back, parsed, readAgain, parsedAgain⟩ := tree_round_trips shallowText 127 reads
  refine ⟨reads, ?_, ?_⟩
  · have free : (listsModule 61).isFloatFree := by decide +kernel
    have shallow : (listsModule 61).json.nesting ≤ 127 := by decide +kernel
    have again := parsed (listsModule 61) free
    rw [if_pos shallow] at again
    exact ⟨free, back _ free, again⟩
  · have read : Module.read? unplacedPass = some ⟨[⟨.pass, ⟨0, 0⟩⟩]⟩ := rfl
    have legible : Legible Module.focus unplacedPass :=
      ⟨rfl, ⟨rfl, ⟨rfl, rfl, trivial⟩, trivial⟩, trivial⟩
    have shallow : (Module.json ⟨[⟨.pass, ⟨0, 0⟩⟩]⟩).nesting ≤ 127 := by decide +kernel
    have source : Module.parse? shallowText (shallowText.write unplacedPass) =
        some ⟨[⟨.pass, ⟨0, 0⟩⟩]⟩ := by
      rw [Module.parse?, reads.shallow legible (by decide), Option.bind_some, read]
    exact ⟨_, read, rfl, readAgain _ _ read rfl, source, shallow,
      parsedAgain _ _ source rfl shallow⟩

/-- The text written for lists nested 63 deep is refused by every reader with the limit 127. -/
theorem deep_tree_refused : (listsModule 62).isFloatFree ∧
    Module.parse? shallowText (shallowText.write (listsModule 62).json) = none ∧
    ∀ text : JsonText, text.ReadsBack 127 →
      Module.parse? text (text.write (listsModule 62).json) = none := by
  have free : (listsModule 62).isFloatFree := by decide +kernel
  have deep : ¬ (listsModule 62).json.nesting ≤ 127 := by decide +kernel
  have refused : ∀ text : JsonText, text.ReadsBack 127 →
      Module.parse? text (text.write (listsModule 62).json) = none := by
    intro text reads
    rw [Module.parse?_write reads _ free, if_neg deep]
  exact ⟨free, refused shallowText (Json.plainText_readsBack _ 127), refused⟩

end TreeTyper.Tree
