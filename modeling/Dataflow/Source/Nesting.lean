import Dataflow.Source.Error

/-!
# Nesting

A text is measured before it is read: every open bracket or brace is one level, and so is every
operator in a run of unary operators. String literals and comments do not count.

* `Nesting`: what has been counted so far;
* `Nesting.check`: the first character at which a text is nested deeper than a limit.
-/

namespace Dataflow

/-- Where the measure stands: in code, in a string literal, behind a backslash in one, or in a
comment. -/
inductive Nesting.Place where
  | code
  | string
  | escaped
  | comment
  deriving DecidableEq, Repr

/-- The open brackets and the length of the run of `-` and `!` that ends here. -/
structure Nesting where
  place : Nesting.Place
  brackets : Nat
  run : Nat
  deriving DecidableEq, Repr

namespace Nesting

/-- The start of a text. -/
def start : Nesting := ⟨.code, 0, 0⟩

/-- The level counted so far. -/
def depth (s : Nesting) : Nat := s.brackets + s.run

/-- One more character. A literal ends at its quote or at the end of the line, a comment at a line
feed, and blanks leave a run as it is. -/
def step (s : Nesting) (c : Char) : Nesting :=
  match s.place with
  | .string =>
    if c = '\\' then { s with place := .escaped }
    else if c = '"' ∨ c = '\n' then { s with place := .code }
    else s
  | .escaped => { s with place := .string }
  | .comment => if c = '\n' then { s with place := .code } else s
  | .code =>
    if c = '"' then { s with place := .string, run := 0 }
    else if c = '#' then { s with place := .comment, run := 0 }
    else if c = ' ' ∨ c = '\t' ∨ c = '\r' then s
    else if c = '(' ∨ c = '\x7b' then { s with brackets := s.brackets + 1, run := 0 }
    else if c = ')' ∨ c = '\x7d' then { s with brackets := s.brackets - 1, run := 0 }
    else if c = '-' ∨ c = '!' then { s with run := s.run + 1 }
    else { s with run := 0 }

/-- The first character, of those that begin at byte `offset`, that goes deeper than `limit`. -/
def checkFrom (limit : Nat) (s : Nesting) (offset : Nat) : List Char → Except SourceError Unit
  | [] => .ok ()
  | c :: cs =>
    let t := s.step c
    if limit < t.depth then
      .error ⟨.tooDeep t.depth limit, ⟨offset, offset + c.utf8Size⟩⟩
    else
      t.checkFrom limit (offset + c.utf8Size) cs
termination_by structural cs => cs

/-- Refuses a text that is nested deeper than `limit`. -/
def check (limit : Nat) (cs : List Char) : Except SourceError Unit := start.checkFrom limit 0 cs

end Nesting

end Dataflow
