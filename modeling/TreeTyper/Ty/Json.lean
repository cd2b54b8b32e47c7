import TreeTyper.Json.Basic
import TreeTyper.Ty.Basic

/-!
# The JSON form of a type

An atom is a string, a parametric type the array of its head and its
parameters, a hole is null, and the length of an array is a number.
-/

namespace TreeTyper.Ty

mutual

def json : Ty → Json
  | hole => .null
  | array t n => .arr [.str "Array", json t, .int n]
  | list t => .arr [.str "List", json t]
  | set t => .arr [.str "Set", json t]
  | dictionary k v => .arr [.str "Dictionary", json k, json v]
  | tuple ts => .arr (.str "Tuple" :: jsonAll ts)
  | function ps r => .arr (.str "Function" :: jsonAll ps ++ [json r])
  | atom name => .str name
  | any => .str "Any"
  | number => .str "Number"
  | placeholder p => .str p.name

def jsonAll : List Ty → List Json
  | [] => []
  | t :: ts => json t :: jsonAll ts

end

end TreeTyper.Ty
