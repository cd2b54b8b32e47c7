import TreeTyper.Failure.Basic
import TreeTyper.Text.Line
import TreeTyper.Ty.Render

/-!
# Failures as plain lines

The code and the description come first; then, as far as they are known, the
position, the line of the source, the suggestion and the two examples, the lines
of which are indented.
-/

namespace TreeTyper.Failure

/-- A part of the text, if it is known. -/
def part {α : Type} (text : α → String) : Option α → String
  | some a => text a
  | none => ""

def exampleText (heading text : String) : String :=
  "\n  " ++ heading ++ ":\n" ++ Text.indent "    " text

def plain (f : Failure) : String :=
  "[" ++ f.kind.code ++ "] " ++ f.display ++
    part (fun pos => "\n  at " ++ Pos.render pos) f.location ++
    part ("\n  | " ++ ·) f.sourceLine ++
    part ("\n  help: " ++ ·) f.suggestion ++
    part (exampleText "right") f.right ++
    part (exampleText "wrong") f.wrong

end TreeTyper.Failure
