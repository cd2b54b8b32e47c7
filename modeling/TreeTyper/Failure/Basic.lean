import TreeTyper.Source
import TreeTyper.Ty.Basic

/-!
# Failures

The first failure ends the work on a module.  It has a kind, a message and, as far as
they are known, the position and the text of the source line, a suggestion, a
right and a wrong example, and the type that was rejected.  The first position
and the first source line that are attached stay.
-/

namespace TreeTyper

inductive FailureKind where
  /-- A form outside the language that can be translated. -/
  | notTranslatable
  /-- A mismatch of types or counts, an undefined name or a bad spelling. -/
  | typeCheck
  deriving DecidableEq, Repr

namespace FailureKind

def code : FailureKind → String
  | notTranslatable => "P0001"
  | typeCheck => "P0002"

def describe : FailureKind → String
  | notTranslatable => "not translatable"
  | typeCheck => "type check error"

end FailureKind

structure Failure where
  kind : FailureKind
  message : String
  location : Option Pos
  sourceLine : Option String
  suggestion : Option String
  right : Option String
  wrong : Option String
  wrongType : Option Ty
  deriving DecidableEq, Repr

namespace Failure

def ofMessage (kind : FailureKind) (message : String) : Failure :=
  ⟨kind, message, none, none, none, none, none, none⟩

def notTranslatable (message : String) : Failure := ofMessage .notTranslatable message

def typeCheck (message : String) : Failure := ofMessage .typeCheck message

/-- Attaches a position unless there is one. -/
def locate (f : Failure) (pos : Pos) : Failure :=
  { f with location := some (f.location.getD pos) }

def withSuggestion (f : Failure) (text : String) : Failure := { f with suggestion := some text }

def withExample (f : Failure) (right wrong : String) : Failure :=
  { f with right := some right, wrong := some wrong }

def withWrongType (f : Failure) (ty : Ty) : Failure := { f with wrongType := some ty }

/-- Attaches the line of the source at the position unless there is a line. -/
def withSource (f : Failure) (source : String) : Failure :=
  match f.sourceLine, f.location with
  | none, some pos => { f with sourceLine := (LineIndex.ofString source).line source pos.line }
  | _, _ => f

def display (f : Failure) : String := f.kind.describe ++ ": " ++ f.message

theorem locate_locate (f : Failure) (p q : Pos) : (f.locate p).locate q = f.locate p := by
  simp [locate]

end Failure

end TreeTyper
