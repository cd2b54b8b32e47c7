import TreeTyper.Failure.Basic
import TreeTyper.Text.CharClass

/-!
# The highlighted part of a source

A failure points at the word that begins at its position, in bytes.  Where no
word begins, the span is the byte there; a failure without a position, or on a
line that the source does not have, points at the start of the source.  A
position whose offset is no word, or lies inside a character, has no span.
-/

namespace TreeTyper

/-- The bytes from `start` up to `stop`. -/
structure Span where
  start : Nat
  stop : Nat
  deriving DecidableEq, Repr

namespace Failure

/-- The byte at which a failure points. -/
def offset (f : Failure) (source : String) : Except SourceFault Nat := do
  let found ← match f.location with
    | some pos => (LineIndex.ofString source).offset pos
    | none => .ok none
  return min ((found.map UInt32.toNat).getD 0) (LineIndex.byteLength source.toList)

/-- The number of bytes of the word at the start of a text. -/
def wordLength (cs : List Char) : Nat := LineIndex.byteLength (cs.takeWhile Text.isWordChar)

def span (f : Failure) (source : String) : Except SourceFault Span := do
  let start ← f.offset source
  match LineIndex.dropBytes start source.toList with
  | none => .error (.insideCharacter start)
  | some rest =>
    return ⟨start, min (start + max (wordLength rest) 1) (LineIndex.byteLength source.toList)⟩

end Failure

end TreeTyper
