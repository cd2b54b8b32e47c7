import TreeTyper.Ty.Basic

/-!
# The text of a type

`render` writes `List[Int]`, `Array[Int, 3]`, `Function[Int, ?, Void]`: a
parametric type is its head followed by its parameters between brackets, a
function type lists its return type last, a hole is `?`.
-/

namespace TreeTyper.Ty

/-- A head applied to parameters that are already text. -/
def applied (head : String) (params : List String) : String :=
  head ++ "[" ++ String.intercalate ", " params ++ "]"

mutual

def render : Ty → String
  | list t => applied "List" [render t]
  | set t => applied "Set" [render t]
  | dictionary k v => applied "Dictionary" [render k, render v]
  | array t n => applied "Array" [render t, toString n]
  | tuple ts => applied "Tuple" (renderAll ts)
  | function ps r => applied "Function" (renderAll ps ++ [render r])
  | atom name => name
  | hole => "?"
  | any => "Any"
  | number => "Number"
  | placeholder p => p.name

def renderAll : List Ty → List String
  | [] => []
  | t :: ts => render t :: renderAll ts

end

end TreeTyper.Ty
