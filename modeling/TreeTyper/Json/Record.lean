import TreeTyper.Json.Basic

/-!
# Records in JSON

A record is an object, or the array of its fields in order.  A declared field
may not be repeated; fields that are not declared are ignored.  `record?` gives
the declared fields in order, each present or absent, and the readers below say
what an absent field stands for.

A choice between named forms is written as an object with a tag field
(`tagged?`) or, for a form without fields, as its name (`named?`).
-/

namespace TreeTyper.Json

/-! ## Fields -/

def countField (fields : List (String × Json)) (name : String) : Nat :=
  (fields.filter (·.1 == name)).length

/-- The declared fields of an object. -/
def declared? (names : List String) (fields : List (String × Json)) :
    Option (List (Option Json)) :=
  if names.all fun n => countField fields n ≤ 1 then some (names.map (field? fields)) else none

/-- The declared fields of a record written as an array. -/
def positional? (names : List String) (items : List Json) : Option (List (Option Json)) :=
  if items.length ≤ names.length then
    some (items.map some ++ List.replicate (names.length - items.length) none)
  else none

def record? (names : List String) : Json → Option (List (Option Json))
  | obj fields => declared? names fields
  | arr items => positional? names items
  | _ => none

/-! ## Readers -/

/-- A field that has to be there. -/
def required {α : Type} (read : Json → Option α) (field : Option Json) : Option α :=
  field.bind read

/-- A field that stands for `default` when it is absent. -/
def defaulted {α : Type} (default : α) (read : Json → Option α) : Option Json → Option α
  | some j => read j
  | none => some default

/-- A field that may be absent or null. -/
def optional {α : Type} (read : Json → Option α) : Option Json → Option (Option α)
  | some null => some none
  | some j => (read j).map some
  | none => some none

/-- An array of values. -/
def list? {α : Type} (read : Json → Option α) : Json → Option (List α)
  | arr items => items.mapM read
  | _ => none

/-! ## Forms -/

/-- The form a tag names; a tag may also be the number of the form. -/
def form? (forms : List String) : Json → Option String
  | str s => if s ∈ forms then some s else none
  | int (.ofNat n) => forms[n]?
  | _ => none

/-- The form of an object, from its tag field. -/
def tagged? (tag : String) (forms : List String) (fields : List (String × Json)) :
    Option String := do
  let [field] ← declared? [tag] fields | none
  required (form? forms) field

/-- A form without fields: its name, or an object with the name as its only field, which is null
or an empty object. -/
def named? {α : Type} (ofName? : String → Option α) : Json → Option α
  | str s => ofName? s
  | obj [(s, null)] => ofName? s
  | obj [(s, obj [])] => ofName? s
  | _ => none

end TreeTyper.Json
