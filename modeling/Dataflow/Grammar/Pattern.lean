import Dataflow.Source.Span

/-!
# Patterns

Grammars are data: a pattern says what to match, a grammar gives every rule a pattern, and blanks
are skipped between the parts of a sequence unless a rule is a token.

* `Pattern`: literal texts, character classes, ordered choice, repetition and negative lookahead;
* `Grammar`: the body of every rule and the pattern of blanks;
* `Tree`: what a match builds, one node for each rule that matched.
-/

namespace Dataflow

/-- What to match at a position. Choice is ordered and repetition takes as much as it can. -/
inductive Pattern (R : Type) where
  /-- These characters exactly. -/
  | text (cs : List Char)
  /-- One character of a class. -/
  | satisfy (p : Char → Bool)
  /-- The end of the input. -/
  | finish
  /-- The body of a rule. -/
  | rule (r : R)
  /-- One pattern, blanks, then the other. -/
  | seq (a b : Pattern R)
  /-- The first pattern or else the second. -/
  | alt (a b : Pattern R)
  /-- Any number of repetitions with blanks between them. -/
  | star (a : Pattern R)
  /-- Any number of further repetitions, each after blanks. -/
  | more (a : Pattern R)
  /-- Nothing, where the pattern does not match. -/
  | absent (a : Pattern R)

namespace Pattern

variable {R : Type}

/-- Matches everywhere and takes nothing. -/
def empty : Pattern R := text []

/-- One pattern or nothing. -/
def opt (a : Pattern R) : Pattern R := alt a empty

/-- At least one repetition. -/
def plus (a : Pattern R) : Pattern R := seq a (star a)

/-- The given text. -/
def word (s : String) : Pattern R := text s.toList

/-- The patterns one after the other. -/
def seqs : List (Pattern R) → Pattern R
  | [] => empty
  | [a] => a
  | a :: as => seq a (seqs as)

/-- The first of the patterns that matches. -/
def alts : List (Pattern R) → Pattern R
  | [] => empty
  | [a] => a
  | a :: as => alt a (alts as)

/-- One or more `a`, with `sep` between two of them. -/
def separated (sep a : Pattern R) : Pattern R := seq a (star (seq sep a))

end Pattern

/-- Whether blanks are skipped: `spaced` between the parts of a rule, `tight` within a token. -/
inductive Mode where
  | spaced
  | tight
  deriving DecidableEq, Repr

/-- A grammar: each rule's body, which rules are tokens, and what counts as blank. -/
structure Grammar (R : Type) where
  body : R → Pattern R
  isToken : R → Bool
  blank : Pattern R

/-- A match: a token with its text, or a rule with the matches inside it. -/
inductive Tree (R : Type) where
  | leaf (rule : R) (span : Span) (text : List Char)
  | node (rule : R) (span : Span) (children : List (Tree R))

namespace Tree

variable {R : Type}

/-- The rule that matched. -/
def rule : Tree R → R
  | leaf r _ _ | node r _ _ => r

/-- The span that was matched. -/
def span : Tree R → Span
  | leaf _ s _ | node _ s _ => s

end Tree

end Dataflow
