/-!
# Spans

A span is a range of UTF-8 byte offsets into a source text, the end excluded.

* `Span.cover`: from the start of one span to the end of another;
* `Span.slice`: the text under a span;
* `Span.slices`: the texts under spans that follow each other.
-/

namespace Dataflow

/-- A range of byte offsets `start..stop` of a source text, `stop` excluded. -/
structure Span where
  start : Nat
  stop : Nat
  deriving DecidableEq, Repr, Inhabited

namespace Span

/-- From the start of `a` to the end of `b`. -/
def cover (a b : Span) : Span := ⟨a.start, b.stop⟩

/-- The characters that start at byte `n` or behind it. -/
def charsBehind : Nat → List Char → List Char
  | _, [] => []
  | n, c :: cs => if n = 0 then c :: cs else charsBehind (n - c.utf8Size) cs

/-- The characters that start before byte `n`, after those in `taken`, which are in reverse
order. -/
def charsBefore (taken : List Char) : Nat → List Char → List Char
  | _, [] => taken.reverse
  | n, c :: cs => if n = 0 then taken.reverse else charsBefore (c :: taken) (n - c.utf8Size) cs

/-- The texts under spans that follow each other, in a text that begins at byte `offset`. -/
def slicesFrom (offset : Nat) (cs : List Char) : List Span → List String
  | [] => []
  | s :: ss =>
    let rest := charsBehind (s.start - offset) cs
    String.ofList (charsBefore [] (s.stop - s.start) rest) :: slicesFrom s.start rest ss

/-- The texts under spans that follow each other. -/
def slices (spans : List Span) (source : String) : List String := slicesFrom 0 source.toList spans

/-- The text under the span. -/
def slice (s : Span) (source : String) : String :=
  String.ofList (charsBefore [] (s.stop - s.start) (charsBehind s.start source.toList))

/-- A span as `start..stop`. -/
def text (s : Span) : String := toString s.start ++ ".." ++ toString s.stop

end Span

end Dataflow
