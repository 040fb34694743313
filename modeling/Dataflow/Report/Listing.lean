import Dataflow.Report.Failure
import Dataflow.Report.Lines

/-!
# Listings

A diagnostic with a place is shown with the lines of source text it points at:

    [T001] Error: unknown value `nope`
       ╭─[ <input>:4:4 ]
       │
     4 │    nope
       │    ──┬─
       │      ╰─── unknown value `nope`
    ───╯

If the place covers several lines, the first and the last are shown with a bracket before them.

* `Ink`, `Piece`: coloured text;
* `Diagnostic.pieces`: the listing of a diagnostic;
* `Diagnostic.render`: the listing as text, with or without colours.
-/

namespace Dataflow

/-! ## Coloured text -/

/-- What a piece of a listing is drawn in. -/
inductive Ink where
  | plain
  | header
  | frame
  | margin
  | label
  | source
  | help
  deriving DecidableEq, Repr, Inhabited

/-- The terminal code of an ink. -/
def Ink.code? : Ink → Option String
  | plain => none
  | header => some "31"
  | frame => some "38;5;246"
  | margin => some "38;5;240"
  | label => some "38;5;155"
  | source => some "38;5;249"
  | help => some "38;5;115"

/-- A text in one ink. -/
structure Piece where
  ink : Ink
  text : String
  deriving DecidableEq, Repr, Inhabited

namespace Piece

/-- Text in no ink. -/
def plain (text : String) : Piece := ⟨.plain, text⟩

/-- A character several times. -/
def times (n : Nat) (c : Char) : String := String.ofList (List.replicate n c)

/-- Blanks in no ink. -/
def blanks (n : Nat) : Piece := plain (times n ' ')

/-- Characters, each a piece of its own. -/
def each (ink : Ink) (cs : List Char) : List Piece := cs.map fun c => ⟨ink, toString c⟩

/-- A piece as text, in its ink if there are colours. -/
def render (coloured : Bool) (p : Piece) : String :=
  match p.ink.code? with
  | some code => if coloured then "\x1b[" ++ code ++ "m" ++ p.text ++ "\x1b[0m" else p.text
  | none => p.text

end Piece

/-! ## Rows -/

/-- What a character of the line at a column is drawn as, and how many cells it takes. Blanks are
drawn as blanks, and a tab reaches to the next multiple of four. -/
def drawnAs (c : Char) (column : Nat) : Char × Nat :=
  if c = '\t' then (' ', (column / 4 + 1) * 4 - column)
  else if isSpace c then (' ', 1)
  else (c, cells c)

/-- How many cells a column of a line takes; columns past its end take one. -/
def columnWidth (text : List Char) (column : Nat) : Nat :=
  match text[column]? with
  | some c => (drawnAs c column).2
  | none => 1

/-- The characters of a line, inside the label and outside it. -/
def sourceRow (inLabel : Nat → Bool) (line : List Char) : List Piece :=
  line.zipIdx.flatMap fun (c, column) =>
    let (shown, width) := drawnAs c column
    Piece.each (if inLabel column then .label else .source)
      (if shown = ' ' then List.replicate width shown else [shown])

/-- The columns of a row below a line. Each has a character to start with and one for the other
cells, or none of them. -/
def drawnRow (line : List Char) (columns : Nat) (draw : Nat → Option (Char × Char)) : List Piece :=
  (List.range columns).flatMap fun column =>
    let width := columnWidth line column
    match draw column with
    | some (head, tail) =>
      if width = 0 then [] else Piece.each .label (head :: List.replicate (width - 1) tail)
    | none => [Piece.blanks width]

/-- The end of a row. -/
def lineBreak : Piece := .plain "\n"

/-- The margin before a line of source text, with its number in `width` columns. -/
def numberedMargin (width line : Nat) : List Piece :=
  let number := toString (line + 1)
  [.plain " ", ⟨.frame, Piece.times (width - number.length) ' ' ++ number ++ " │"⟩, .plain " "]

/-- The margin of other rows, with a line down its side. -/
def margin (width : Nat) (side : Char) : List Piece :=
  [.plain " ", ⟨.margin, Piece.times (width + 1) ' ' ++ toString side⟩, .plain " "]

/-- The rows for a label within one line, from column `first` to before column `stop`: the line,
the underlined columns, and the message at the end of an arrow from the middle. -/
def inlineRows (width : Nat) (line : TextLine) (number first stop : Nat) (message : String) :
    List Piece :=
  let text := line.trimmed
  let middle := (first + stop) / 2
  let inLabel (column : Nat) : Bool := first ≤ column && column < stop
  numberedMargin width number ++ sourceRow inLabel text ++ [lineBreak]
    ++ margin width '│' ++ drawnRow text (stop + 2) (fun column =>
      if column = middle then some (if inLabel column then ('┬', '─') else ('│', ' '))
      else if inLabel column then some ('─', '─')
      else none) ++ [lineBreak]
    ++ margin width '│' ++ drawnRow text (stop + 2) (fun column =>
      if column = middle then some ('╰', '─')
      else if middle < column then some ('─', '─')
      else none) ++ [.plain (" " ++ message), lineBreak]

/-- The bracket before the first or the last line of a label. -/
def bracket (corner : Char) : List Piece := Piece.each .label [corner, '─', '▶', ' ']

/-- The rows for a label over several lines: the first and the last line, a gap between them if
there are others, and the message at the end of the bracket, which runs on below all of the last
line, its end included. -/
def blockRows (width : Nat) (lines : List TextLine) (m : Marker) (message : String) :
    List Piece :=
  let first := (lines.getD m.firstLine default).trimmed
  let lastLine := lines.getD m.lastLine default
  let last := lastLine.trimmed
  let columns := lastLine.chars.length + 2
  numberedMargin width m.firstLine ++ bracket '╭'
    ++ sourceRow (fun column => m.firstColumn ≤ column) first ++ [lineBreak]
    ++ (if m.firstLine + 1 < m.lastLine then
      margin width '┆' ++ Piece.each .label ['┆'] ++ [.blanks 3, lineBreak] else [])
    ++ numberedMargin width m.lastLine ++ bracket '├'
    ++ sourceRow (fun column => column < m.endColumn) last ++ [lineBreak]
    ++ margin width '│' ++ Piece.each .label ['│'] ++ [.blanks 3]
    ++ drawnRow last columns (fun _ => none) ++ [lineBreak]
    ++ margin width '│' ++ Piece.each .label ['╰', '─', '─', '─']
    ++ drawnRow last columns (fun _ => some ('─', '─')) ++ [.plain (" " ++ message), lineBreak]

/-- The rows with advice. -/
def helpRows (width : Nat) (help : String) : List Piece :=
  margin width '│' ++ [lineBreak] ++ margin width '│'
    ++ [⟨.help, "Help"⟩, .plain (": " ++ help), lineBreak]

namespace Diagnostic

/-- The listing of a diagnostic that points at a span of a source text. -/
def locatedPieces (d : Diagnostic) (source : String) (span : Span) : List Piece :=
  let lines := TextLine.split source
  let m := span.marker lines source.utf8ByteSize
  let width := (toString (m.lastLine + 1)).length
  let place := s!" <input>:{m.firstLine + 1}:{m.firstColumn + 1} "
  [⟨.header, "[" ++ d.code ++ "] Error:"⟩, .plain (" " ++ d.message), lineBreak,
    .blanks (width + 2)] ++ Piece.each .frame ['╭', '─', '['] ++ [.plain place]
    ++ Piece.each .frame [']'] ++ [lineBreak, .blanks (width + 2)] ++ Piece.each .frame ['│']
    ++ [lineBreak]
    ++ (if m.firstLine = m.lastLine then
        inlineRows width (lines.getD m.firstLine default) m.firstLine m.firstColumn m.endColumn
          d.message
      else blockRows width lines m d.message)
    ++ (match d.help? with
      | some help => helpRows width help
      | none => [])
    ++ [⟨.frame, Piece.times (width + 2) '─' ++ "╯"⟩, lineBreak]

/-- A diagnostic that points nowhere, in one line or two. -/
def bareText (d : Diagnostic) : String :=
  "error[" ++ d.code ++ "]: " ++ d.message ++ "\n"
    ++ (match d.help? with
      | some help => "help: " ++ help ++ "\n"
      | none => "")

/-- A diagnostic as coloured text. -/
def pieces (d : Diagnostic) (source : String) : List Piece :=
  match d.span? with
  | some span => d.locatedPieces source span
  | none => [.plain d.bareText]

/-- A diagnostic as text. -/
def render (d : Diagnostic) (source : String) (coloured : Bool) : String :=
  String.join ((d.pieces source).map (Piece.render coloured))

end Diagnostic

end Dataflow
