import Dataflow.Source.Span
import Dataflow.Text.Cells

/-!
# Lines of a text

A line ends with a line feed, a carriage return, both in this order, or another character that
breaks lines, and the end belongs to the line.

* `TextLine`: a line and where it starts;
* `TextLine.split`: the lines of a text;
* `Span.marker`: the range of characters that a listing points at.
-/

namespace Dataflow

/-- A line of a text, its end included, and the byte it starts at. -/
structure TextLine where
  offset : Nat
  chars : List Char
  deriving DecidableEq, Repr, Inhabited

/-- Characters that end a line. -/
def isLineEnd (c : Char) : Bool :=
  c.toNat ∈ [0x0a, 0x0b, 0x0c, 0x0d, 0x85, 0x2028, 0x2029]

/-- How many bytes characters take. -/
def byteLength (cs : List Char) : Nat := cs.foldr (fun c n => c.utf8Size + n) 0

namespace TextLine

/-- The lines of a text of which the characters in `current`, in reverse order, belong to the line
that starts at `offset`. -/
def splitFrom (offset : Nat) (current : List Char) : List Char → List TextLine
  | [] => if current.isEmpty then [] else [⟨offset, current.reverse⟩]
  | '\r' :: '\n' :: cs =>
    let line := (('\n' :: '\r' :: current)).reverse
    ⟨offset, line⟩ :: splitFrom (offset + byteLength line) [] cs
  | c :: cs =>
    if isLineEnd c then
      let line := (c :: current).reverse
      ⟨offset, line⟩ :: splitFrom (offset + byteLength line) [] cs
    else splitFrom offset (c :: current) cs

/-- The lines of a text; an empty text is one empty line. -/
def split (text : String) : List TextLine :=
  if text.isEmpty then [⟨0, []⟩] else splitFrom 0 [] text.toList

/-- The line without the blanks at its end. -/
def trimmed (l : TextLine) : List Char := (l.chars.reverse.dropWhile isSpace).reverse

/-- How many of these characters, the first at `offset`, end at a byte or before it. -/
def countUpTo (byte offset : Nat) : List Char → Nat
  | [] => 0
  | c :: cs =>
    if offset + c.utf8Size ≤ byte then 1 + countUpTo byte (offset + c.utf8Size) cs else 0

/-- The column of a byte: how many characters of the line stand before it. -/
def columnOf (l : TextLine) (byte : Nat) : Nat := countUpTo byte l.offset l.chars

end TextLine

/-- The number of the line that a byte belongs to, counted from zero. -/
def lineIndexOf (lines : List TextLine) (byte : Nat) : Nat :=
  (lines.takeWhile fun l => l.offset ≤ byte).length - 1

/-- A range of a text by lines and columns, both counted from zero, the last column excluded. -/
structure Marker where
  firstLine : Nat
  firstColumn : Nat
  lastLine : Nat
  endColumn : Nat
  deriving DecidableEq, Repr, Inhabited

/-- What is pointed at: the span within a text of `length` bytes, at least one byte of it. -/
def Span.visible (s : Span) (length : Nat) : Span :=
  let stop := min (max s.stop (s.start + 1)) length
  ⟨min s.start (stop - 1), stop⟩

/-- The range of characters that a listing points at. -/
def Span.marker (s : Span) (lines : List TextLine) (length : Nat) : Marker :=
  let v := s.visible length
  let first := lineIndexOf lines v.start
  let last := if v.stop ≤ v.start then first else lineIndexOf lines (v.stop - 1)
  ⟨first, (lines.getD first default).columnOf v.start, last,
    (lines.getD last default).columnOf v.stop⟩

end Dataflow
