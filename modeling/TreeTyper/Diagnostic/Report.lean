import TreeTyper.Diagnostic.Snippet
import TreeTyper.Diagnostic.Span
import TreeTyper.Text.Line
import TreeTyper.Ty.Render

/-!
# Reports

A report shows a failure with a snippet of the source, the suggestion as help and
the two examples as notes, in a frame whose margin is as wide as the greatest line
number.  The bounds of the highlighted span are taken as numbers of characters;
where they do not lie in the source the report has no frame.  A failure without a
span has no report.
-/

namespace TreeTyper

namespace Report

def blanks (n : Nat) : String := String.ofList (List.replicate n ' ')

/-- A row of a frame with line numbers of `digits` digits. -/
def rowText (digits : Nat) : Snippet.Row → String
  | .line number text =>
    let n := toString number
    " " ++ blanks (digits - n.length) ++ n ++ " │ " ++ text
  | .beside bar text => blanks (digits + 2) ++ bar.toString ++ " " ++ text

/-- The rows of a block of text: its heading stands before the first line, blanks as wide as the
heading before the others. -/
def blockRows (heading : String) (text : String) : List String :=
  match Text.lines text with
  | [] => []
  | first :: rest => (heading ++ first) :: rest.map (blanks heading.length ++ ·)

/-- The rows of some blocks inside the frame, each after an empty row. -/
def framed (gutter : String) (blocks : List (List String)) : List Snippet.Row :=
  blocks.flatMap fun rows => ("" :: rows).map fun row => .beside '│' (gutter ++ row)

/-- A frame around a snippet of the lines from `first` to `last` and some blocks. -/
def frame (first last : Snippet.Line) (column : Nat) (snippet : List Snippet.Row)
    (gutter : String) (blocks : List (List String)) : List String :=
  let digits := (toString last.number).length
  let margin := blanks (digits + 2)
  (margin ++ s!"╭─[ <unknown>:{first.number}:{column + 1} ]") :: (margin ++ "│") ::
    (snippet ++ framed gutter blocks).map (rowText digits) ++
    [String.ofList (List.replicate (digits + 2) '─') ++ "╯"]

end Report

namespace Failure

/-- The label of the highlighted span. -/
def label (f : Failure) : String :=
  match f.wrongType with
  | some ty => "found " ++ ty.render
  | none => f.kind.describe

/-- The examples as notes, in order. -/
def notes (f : Failure) : List String :=
  (f.right.map ("right:\n" ++ ·)).toList ++ (f.wrong.map ("wrong:\n" ++ ·)).toList

/-- The notes, each numbered in its heading when there are several. -/
def noteBlocks (f : Failure) : List (List String) :=
  let notes := f.notes
  notes.zipIdx.map fun (text, i) =>
    Report.blockRows (if notes.length > 1 then s!"Note {i + 1}: " else "Note: ") text

def helpBlocks (f : Failure) : List (List String) :=
  (f.suggestion.map (Report.blockRows "Help: ")).toList

/-- The rows of the frame of a report that highlights `span`. -/
def frameRows (f : Failure) (source : String) (span : Span) : List String :=
  let layout := Snippet.layout source span.start span.stop
  match Snippet.bounds? layout with
  | none => []
  | some (first, last) =>
    Report.frame first last (span.start - first.start)
      (Snippet.rows span.start span.stop f.label layout) (Snippet.gutter span.start layout)
      (f.helpBlocks ++ f.noteBlocks)

/-- The report of a failure in a source. -/
def report (f : Failure) (source : String) : Except SourceFault String := do
  let span ← f.span source
  let rows := s!"[{f.kind.code}] Error: {f.message}" :: f.frameRows source span
  return String.join (rows.map (· ++ "\n"))

end Failure

end TreeTyper
