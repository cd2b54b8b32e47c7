import TreeTyper.Text.CharClass

/-!
# Snippets of a source

A snippet shows a range of the characters of a source.  A range on one line is
underlined; of a range over several lines the first and the last are shown, with
an arrow to each:

     2 │ x = yy + 1            1 │ ╭─▶ x = (yy
       │     ─┬                  ┆ ┆
       │      ╰── label        3 │ ├─▶   + 1)
                                 │ │
                                 │ ╰───────── label

A line ends with its terminator, so that every character belongs to a line, and a
terminator at the end starts no further one.  Tabs are shown up to the next
multiple of four, by the index of the character; the rows below a line follow the
widths of its characters.

    (sourceLines cs).flatten = cs          (flatten_sourceLines)
-/

namespace TreeTyper.Snippet

/-! ## Lines -/

/-- The characters that end a line; a carriage return takes a line feed after it along. -/
def isTerminator (c : Char) : Bool :=
  c == '\r' || c == '\n' || c == '\x0b' || c == '\x0c' || c == '\u0085' || c == '\u2028' ||
    c == '\u2029'

/-- The lines of a text with their terminators. -/
def sourceLines : List Char → List (List Char)
  | [] => []
  | '\r' :: '\n' :: rest => ['\r', '\n'] :: sourceLines rest
  | c :: rest =>
    if isTerminator c then [c] :: sourceLines rest
    else
      match sourceLines rest with
      | [] => [[c]]
      | line :: lines => (c :: line) :: lines

/-- A line of a source: its number, counted from one, the index of its first character and its
characters. -/
structure Line where
  number : Nat
  start : Nat
  text : List Char
  deriving DecidableEq, Repr

/-- The index after the last character of a line. -/
def Line.stop (line : Line) : Nat := line.start + line.text.length

def linesFrom (number start : Nat) : List (List Char) → List Line
  | [] => []
  | text :: rest => ⟨number, start, text⟩ :: linesFrom (number + 1) (start + text.length) rest

/-- The lines of a source; an empty source has an empty line. -/
def lines (source : String) : List Line :=
  if source.isEmpty then [⟨1, 0, []⟩] else linesFrom 1 0 (sourceLines source.toList)

/-- The line of character `i`; the end of the source belongs to the last line. -/
def lineAt? (i : Nat) : List Line → Option Line
  | [] => none
  | [last] => if i ≤ last.stop then some last else none
  | line :: rest => if i < line.stop then some line else lineAt? i rest

/-- How the characters from `start` up to `stop` lie in the lines of a source. -/
inductive Layout where
  /-- The range does not lie in the source. -/
  | outside
  | inline (line : Line)
  /-- The range lies on the last line and goes past its end. -/
  | overrun (line : Line)
  | multiline (first last : Line)
  deriving DecidableEq, Repr

def layout (source : String) (start stop : Nat) : Layout :=
  match lineAt? start (lines source), lineAt? (max start (stop - 1)) (lines source) with
  | some first, some last =>
    if first.number < last.number then .multiline first last
    else if stop ≤ first.stop then .inline first
    else .overrun first
  | _, _ => .outside

/-! ## Characters in columns -/

/-- A line without the blanks at its end. -/
def trimmed (line : List Char) : List Char := (line.reverse.dropWhile Text.isBlank).reverse

/-- The number of columns of a character with index `i`. -/
def width (i : Nat) (c : Char) : Nat :=
  if c = '\t' then 4 - i % 4 else if Text.isBlank c then 1 else Text.columns c

/-- A character with index `i` as it is shown. -/
def shown (i : Nat) (c : Char) : List Char :=
  if Text.isBlank c then List.replicate (width i c) ' ' else [c]

/-- The characters of a line from index `i` on, as they are shown. -/
def shownFrom (i : Nat) : List Char → List Char
  | [] => []
  | c :: rest => shown i c ++ shownFrom (i + 1) rest

def sourceRow (line : List Char) : String := String.ofList (shownFrom 0 (trimmed line))

/-- A row of `count` marks below a line from index `i` on; a mark is a character and what fills the
other columns of a wide one. -/
def marksFrom (mark : Nat → Char × Char) (i : Nat) : (count : Nat) → List Char → List Char
  | 0, _ => []
  | count + 1, [] => (mark i).1 :: marksFrom mark (i + 1) count []
  | count + 1, c :: rest =>
    let (first, other) := mark i
    (first :: List.replicate (width i c - 1) other).take (width i c) ++
      marksFrom mark (i + 1) count rest

def marks (mark : Nat → Char × Char) (count : Nat) (line : List Char) : String :=
  String.ofList (marksFrom mark 0 count (trimmed line))

/-- The mark under character `i` of a range of `size` characters from `column` on: the range, with
the place where the label hangs. -/
def underline (column size i : Nat) : Char × Char :=
  if i = column + size / 2 then if size = 0 then ('│', ' ') else ('┬', '─')
  else if column ≤ i ∧ i < column + size then ('─', '─')
  else (' ', ' ')

/-- The mark of the line that leads to the label. -/
def arrow (column size i : Nat) : Char × Char :=
  if i < column + size / 2 then (' ', ' ')
  else if i = column + size / 2 then ('╰', '─')
  else ('─', '─')

/-! ## Rows -/

/-- A row of a snippet: a line of the source by its number, or what stands beside a bar. -/
inductive Row where
  | line (number : Nat) (text : String)
  | beside (bar : Char) (text : String)
  deriving DecidableEq, Repr

/-- The rows of `size` characters of a line from `column` on. -/
def inlineRows (line : Line) (column size : Nat) (label : String) : List Row :=
  let count := column + size + 2
  [.line line.number (sourceRow line.text),
    .beside '│' (marks (underline column size) count line.text),
    .beside '│' (marks (arrow column size) count line.text ++ " " ++ label)]

/-- The rows that end a range over several lines. -/
def lastRows (last : Line) (label : String) : List Row :=
  let count := last.text.length + 2
  [.line last.number ("├─▶ " ++ sourceRow last.text),
    .beside '│' ("│   " ++ marks (fun _ => (' ', ' ')) count last.text),
    .beside '│' ("╰───" ++ marks (fun _ => ('─', '─')) count last.text ++ " " ++ label)]

/-- The rows of a range over several lines up to `stop`; the lines in between are left out, and so
is the last one if the range goes past its end. -/
def multilineRows (first last : Line) (stop : Nat) (label : String) : List Row :=
  let ends : Bool := stop ≤ last.stop
  let gap : Bool := !ends || first.number + 1 < last.number
  .line first.number ("╭─▶ " ++ sourceRow first.text) ::
    (if gap then [.beside '┆' "┆   "] else []) ++ if ends then lastRows last label else []

/-- The rows of a range from `start` up to `stop`. -/
def rows (start stop : Nat) (label : String) : Layout → List Row
  | .outside => []
  | .inline line => inlineRows line (start - line.start) (stop - start) label
  | .overrun _ => [.beside '│' ""]
  | .multiline first last => multilineRows first last stop label

/-- What the rows after a snippet begin with: a range over several lines keeps its columns, and
also its bar if it begins with the second line of the source. -/
def gutter (start : Nat) : Layout → String
  | .multiline first _ => if first.number = 2 ∧ start = first.start then "│   " else "    "
  | _ => ""

/-- The first and the last line of a layout. -/
def bounds? : Layout → Option (Line × Line)
  | .outside => none
  | .inline line => some (line, line)
  | .overrun line => some (line, line)
  | .multiline first last => some (first, last)

/-! ## Lemmas -/

theorem flatten_sourceLines (cs : List Char) : (sourceLines cs).flatten = cs := by
  fun_induction sourceLines cs with
  | case1 => rfl
  | case2 rest ih => simp [ih]
  | case3 c rest _ _ ih => simp [ih]
  | case4 c rest _ _ h ih => simpa [h] using ih
  | case5 c rest _ _ line lines h ih => simpa [h] using ih

end TreeTyper.Snippet
