import TreeTyper.Json.Basic

/-!
# Texts of values

A value is written as a text and read from one.  A text is read with a `Focus`, which says
what parts of the value are looked at.  What is not looked at has to be well formed and is
left out of the value.

`JsonText` is a way to do both; the readers of trees take one.
-/

namespace TreeTyper

namespace Json

/-- The parts of a value that are looked at. -/
inductive Focus where
  | all
  | nothing
  /-- The named fields of an object, each with a focus of its own, and the other fields; the
  elements of an array. -/
  | parts (fields : List (String × Focus)) (others items : Focus)

namespace Focus

def isNothing : Focus → Bool
  | nothing => true
  | _ => false

/-- The focus on a field of an object. -/
def field (name : String) : Focus → Focus
  | parts fields others _ => ((fields.find? (·.1 == name)).map (·.2)).getD others
  | f => f

/-- The focus on the elements of an array. -/
def item : Focus → Focus
  | parts _ _ items => items
  | f => f

end Focus

end Json

/-- A writer and a reader of texts. -/
structure JsonText where
  write : Json → String
  read : Json.Focus → String → Option Json

end TreeTyper
