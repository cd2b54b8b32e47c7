import TreeTyper.Text.Line

/-!
# Positions in a source text

A position is a line, counted from one, and a byte column, counted from zero.
`LineIndex` holds the byte offset at which each line starts, as a 32-bit word.

`offset` clamps the column to the end of the line, which is the offset of the
line feed or the length of the text.  The column is added to the start of the
line first; a sum or a difference that is not a word is a fault.  `line` cuts a
line out of the text by bytes and removes the carriage returns at its end.  Both
are absent for a line that does not exist.
-/

namespace TreeTyper

/-- A line from one and a byte column from zero. -/
structure Pos where
  line : UInt32
  col : UInt32
  deriving DecidableEq, Repr, Inhabited

def Pos.render (p : Pos) : String := toString p.line.toNat ++ ":" ++ toString p.col.toNat

/-- An operation on a source outside its domain: a sum or a difference that is not a word, or a
text cut inside a character. -/
inductive SourceFault where
  | sum (a b : UInt32)
  | difference (a b : UInt32)
  | insideCharacter (offset : Nat)
  deriving DecidableEq, Repr

def addWords (a b : UInt32) : Except SourceFault UInt32 :=
  if a.toNat + b.toNat < UInt32.size then .ok (a + b) else .error (.sum a b)

def subWords (a b : UInt32) : Except SourceFault UInt32 :=
  if b ≤ a then .ok (a - b) else .error (.difference a b)

/-- The starts of the lines of a text, in bytes. -/
structure LineIndex where
  starts : List UInt32
  length : UInt32
  deriving DecidableEq, Repr

namespace LineIndex

/-! ## Algorithm -/

def byteLength (cs : List Char) : Nat := cs.foldl (fun n c => n + c.utf8Size) 0

/-- The offsets after each line feed of `cs`, which begins at offset `here`. -/
def startsAfter (here : Nat) : List Char → List UInt32
  | [] => []
  | c :: rest =>
    let next := here + c.utf8Size
    if c = '\n' then UInt32.ofNat next :: startsAfter next rest else startsAfter next rest

def ofString (source : String) : LineIndex :=
  ⟨0 :: startsAfter 0 source.toList, UInt32.ofNat (byteLength source.toList)⟩

/-- Where line `i`, counted from zero, ends: at its line feed or at the end of the text. -/
def lineEnd (index : LineIndex) (i : Nat) : UInt32 :=
  match index.starts[i + 1]? with
  | some next => next - 1
  | none => index.length

/-- The line of a position counted from zero, and its start. -/
def lineStart? (index : LineIndex) (line : UInt32) : Option (Nat × UInt32) :=
  if line = 0 then none
  else (index.starts[line.toNat - 1]?).map (line.toNat - 1, ·)

/-- The end of line `i`, or the fault of a line feed without a word before it. -/
def lineStop (index : LineIndex) (i : Nat) : Except SourceFault UInt32 :=
  match index.starts[i + 1]? with
  | some next => subWords next 1
  | none => .ok index.length

/-- The byte offset of a position.  The clamp to the end of the line comes after the sum. -/
def offset (index : LineIndex) (pos : Pos) : Except SourceFault (Option UInt32) :=
  match index.lineStart? pos.line with
  | none => .ok none
  | some (i, start) => do
    let stop ← index.lineStop i
    let sum ← addWords start pos.col
    return some (min sum stop)

/-- The text after the first `n` bytes, if a character begins there. -/
def dropBytes : Nat → List Char → Option (List Char)
  | 0, cs => some cs
  | _ + 1, [] => none
  | n + 1, c :: rest => if c.utf8Size ≤ n + 1 then dropBytes (n + 1 - c.utf8Size) rest else none

/-- The first `n` bytes of the text, if a character ends there. -/
def takeBytes : Nat → List Char → Option (List Char)
  | 0, _ => some []
  | _ + 1, [] => none
  | n + 1, c :: rest =>
    if c.utf8Size ≤ n + 1 then (takeBytes (n + 1 - c.utf8Size) rest).map (c :: ·) else none

def slice (cs : List Char) (start stop : Nat) : Option (List Char) :=
  if start ≤ stop then (dropBytes start cs).bind (takeBytes (stop - start)) else none

/-- The text of a line without its line feed and the carriage returns before it. -/
def line (index : LineIndex) (source : String) (n : UInt32) : Option String := do
  let (i, start) ← index.lineStart? n
  let cs ← slice source.toList start.toNat (index.lineEnd i).toNat
  return String.ofList (Text.trimEndOf '\r' cs)

/-! ## Lemmas -/

theorem lineStart?_eq_none_iff {index : LineIndex} {n : UInt32} :
    index.lineStart? n = none ↔ n = 0 ∨ index.starts.length < n.toNat := by
  rw [lineStart?]
  split
  · next zero =>
    simp [zero]
  · next positive =>
    have size : n.toNat ≠ 0 := fun zero => positive (UInt32.toNat.inj zero)
    rw [Option.map_eq_none_iff, List.getElem?_eq_none_iff, or_iff_right positive]
    omega

end LineIndex

end TreeTyper
