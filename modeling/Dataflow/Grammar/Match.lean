import Dataflow.Grammar.Pattern

/-!
# Matching

`Grammar.run` matches a pattern at a cursor. Beside the result it keeps what a failed match will
report: the furthest position at which a rule failed, and the rules that failed there.

* `Cursor`: a byte offset and the characters that follow it;
* `Attempts`: the furthest failure so far;
* `Grammar.run`: the matcher, by recursion on a depth that `Grammar.depthFor` takes from the length
  of the input.
-/

namespace Dataflow

/-- A position: the byte offset and the characters after it. -/
structure Cursor where
  offset : Nat
  rest : List Char

namespace Cursor

/-- The start of a text. -/
def start (cs : List Char) : Cursor := ⟨0, cs⟩

/-- The cursor behind `cs`, if the input goes on with `cs`. -/
def after? : List Char → Cursor → Option Cursor
  | [], c => some c
  | x :: xs, c =>
    match c.rest with
    | [] => none
    | y :: ys => if x = y then after? xs ⟨c.offset + y.utf8Size, ys⟩ else none

/-- The characters of `cs`, which begins at byte `offset`, up to byte `stop`. -/
def charsUpTo (stop offset : Nat) : List Char → List Char
  | [] => []
  | c :: cs => if offset < stop then c :: charsUpTo stop (offset + c.utf8Size) cs else []

/-- The characters from one cursor to a later one. -/
def upTo (c d : Cursor) : List Char := charsUpTo d.offset c.offset c.rest

end Cursor

/-- The furthest position at which a rule failed and the rules that failed there, in the order in
which they were tried. -/
structure Attempts (R : Type) where
  furthest : Nat
  rules : List R

namespace Attempts

variable {R : Type}

/-- Nothing has failed yet. -/
def none : Attempts R := ⟨0, []⟩

/-- How many rules have failed at `p`, if no rule failed further on. -/
def countAt (w : Attempts R) (p : Nat) : Nat := if p = w.furthest then w.rules.length else 0

/-- Records that rule `r`, entered at `p` with the attempts `before`, has failed. The rule stands
for the rules tried inside it at the same position, except that a single one of them is more
telling than the rule itself. -/
def fail (before after : Attempts R) (r : R) (p : Nat) : Attempts R :=
  let had := before.countAt p
  if after.countAt p = had + 1 then after
  else if p = after.furthest then ⟨p, after.rules.take had ++ [r]⟩
  else if after.furthest < p then ⟨p, [r]⟩
  else after

end Attempts

/-- How a match ends. `exhausted` says that the recursion depth ran out. -/
inductive Matched (R : Type) where
  | done (stop : Cursor) (trees : List (Tree R))
  | failed
  | exhausted

namespace Grammar

variable {R : Type}

/-- Matches a pattern at a cursor, with recursion at most as deep as the first argument says. -/
def run (g : Grammar R) : Nat → Mode → Pattern R → Cursor → Attempts R → Matched R × Attempts R
  | 0, _, _, _, w => (.exhausted, w)
  | n + 1, m, p, c, w =>
    let skip (c : Cursor) : Matched R :=
      match m with
      | .tight => .done c []
      | .spaced => (g.run n .tight g.blank c .none).1
    match p with
    | .text cs =>
      match c.after? cs with
      | some d => (.done d [], w)
      | none => (.failed, w)
    | .satisfy f =>
      match c.rest with
      | [] => (.failed, w)
      | x :: xs => if f x then (.done ⟨c.offset + x.utf8Size, xs⟩ [], w) else (.failed, w)
    | .finish => if c.rest.isEmpty then (.done c [], w) else (.failed, w)
    | .seq a b =>
      match g.run n m a c w with
      | (.done c₁ t₁, w₁) =>
        match skip c₁ with
        | .done c₂ _ =>
          match g.run n m b c₂ w₁ with
          | (.done c₃ t₃, w₃) => (.done c₃ (t₁ ++ t₃), w₃)
          | r => r
        | r => (r, w₁)
      | r => r
    | .alt a b =>
      match g.run n m a c w with
      | (.failed, w₁) => g.run n m b c w₁
      | r => r
    | .star a =>
      match g.run n m a c w with
      | (.done c₁ t₁, w₁) =>
        match g.run n m (.more a) c₁ w₁ with
        | (.done c₂ t₂, w₂) => (.done c₂ (t₁ ++ t₂), w₂)
        | r => r
      | (.failed, w₁) => (.done c [], w₁)
      | r => r
    | .more a =>
      match skip c with
      | .done c₁ _ =>
        match g.run n m a c₁ w with
        | (.done c₂ t₂, w₂) =>
          match g.run n m (.more a) c₂ w₂ with
          | (.done c₃ t₃, w₃) => (.done c₃ (t₂ ++ t₃), w₃)
          | r => r
        | (.failed, w₂) => (.done c [], w₂)
        | r => r
      | r => (r, w)
    | .absent a =>
      match (g.run n m a c w).1 with
      | .done _ _ => (.failed, w)
      | .failed => (.done c [], w)
      | .exhausted => (.exhausted, w)
    | .rule r =>
      match m with
      | .tight => g.run n .tight (g.body r) c w
      | .spaced =>
        if g.isToken r then
          match g.run n .tight (g.body r) c w with
          | (.done d _, w₁) => (.done d [.leaf r ⟨c.offset, d.offset⟩ (c.upTo d)], w₁)
          | (.failed, w₁) => (.failed, w.fail w₁ r c.offset)
          | q => q
        else
          match g.run n .spaced (g.body r) c w with
          | (.done d ts, w₁) => (.done d [.node r ⟨c.offset, d.offset⟩ ts], w₁)
          | (.failed, w₁) => (.failed, w.fail w₁ r c.offset)
          | q => q

/-- A recursion depth for `length` characters. Between two characters that are taken the matcher
enters each rule at most once, so a constant per character is enough. -/
def depthFor (length : Nat) : Nat := 1024 * (length + 1)

/-- Matches a rule at the start of a text. -/
def start (g : Grammar R) (r : R) (cs : List Char) : Matched R × Attempts R :=
  g.run (depthFor cs.length) .spaced (.rule r) (.start cs) .none

end Grammar

end Dataflow
