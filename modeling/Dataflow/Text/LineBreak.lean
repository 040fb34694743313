import Dataflow.Text.BreakClass

/-!
# Where lines can be broken

The Unicode rules for breaking lines. Spaces stay at the end of the line before a break, marks stay
with the character before them, and between two other characters their classes decide.

* `BreakState`: what the rules have to know about the text so far;
* `BreakState.allows`: whether the line can be broken before a character;
* `lineParts`: a line in parts, with a possible break between any two of them.
-/

namespace Dataflow

namespace BreakClass

/-- Letters of any script that has spaces between words. -/
def isLetter (b : BreakClass) : Bool := b = letter || b = hebrew

/-- Characters that break the line after them. -/
def isLineEnd (b : BreakClass) : Bool :=
  b = mandatory || b = carriageReturn || b = lineFeed || b = nextLine

/-- Marks, which have no class of their own. -/
def isMark (b : BreakClass) : Bool := b = combining || b = joiner

/-- Characters that a mark can belong to. -/
def takesMarks (b : BreakClass) : Bool := !(b.isLineEnd || b = space || b = zeroWidthSpace)

/-- Parts of Hangul syllables. -/
def isHangul (b : BreakClass) : Bool :=
  b = leadingJamo || b = vowelJamo || b = trailingJamo || b = openSyllable || b = closedSyllable

/-- Ideographs and emoji. -/
def isPicture (b : BreakClass) : Bool := b = ideograph || b = emojiBase || b = emojiModifier

/-- Characters that no line starts with, not even after spaces. -/
def neverStarts (b : BreakClass) : Bool :=
  b = closing || b = parenthesis || b = exclamation || b = separator || b = slash

/-- Whether two classes stay together in numbers. -/
def joinsNumber : BreakClass → BreakClass → Bool
  | closing, percent | parenthesis, percent | closing, currency | parenthesis, currency => true
  | numeric, percent | numeric, currency | numeric, numeric => true
  | percent, opening | percent, numeric | currency, opening | currency, numeric => true
  | hyphen, numeric | separator, numeric | slash, numeric => true
  | _, _ => false

/-- Whether two classes stay together in a Hangul syllable. -/
def joinsSyllable : BreakClass → BreakClass → Bool
  | leadingJamo, b => b = leadingJamo || b = vowelJamo || b = openSyllable || b = closedSyllable
  | vowelJamo, b | openSyllable, b => b = vowelJamo || b = trailingJamo
  | trailingJamo, b | closedSyllable, b => b = trailingJamo
  | _, _ => false

/-- Whether the character `b` stays with the character `a` directly before it, when neither is a
space or the end of a line. -/
def joins (a b : BreakClass) : Bool :=
  a = quotation || b = quotation
    || !(a = contingent || b = contingent)
      && (b = after || b = hyphen || b = nonstarter || a = before || b = inseparable
        || a = slash && b = hebrew
        || a.isLetter && b = numeric || a = numeric && b.isLetter
        || a = currency && b.isPicture || a.isPicture && b = percent
        || (a = currency || a = percent) && b.isLetter
        || a.isLetter && (b = currency || b = percent)
        || joinsNumber a b || joinsSyllable a b
        || a.isHangul && b = percent || a = currency && b.isHangul
        || a.isLetter && b.isLetter || a = separator && b.isLetter
        || (a.isLetter || a = numeric) && b = opening
        || a = parenthesis && (b.isLetter || b = numeric)
        || a = emojiBase && b = emojiModifier)

end BreakClass

/-- What the rules have to know about the text so far. -/
structure BreakState where
  /-- The class of the last character, marks left out. -/
  last : BreakClass
  /-- The class of the last character that is neither a mark nor a space. -/
  solid : BreakClass
  /-- Whether a Hebrew letter stands before the last character. -/
  afterHebrew : Bool
  /-- Whether an odd number of flag halves stand at the end. -/
  halfFlag : Bool
  /-- Whether the last character is a joiner. -/
  joined : Bool
  deriving Repr, Inhabited

namespace BreakState

open BreakClass

/-- After the first character of a text. -/
def first (b : BreakClass) : BreakState :=
  let b := if b.isMark then letter else b
  ⟨b, b, false, b = regional, false⟩

/-- Whether a mark would belong to the last character. -/
def attaches (s : BreakState) (b : BreakClass) : Bool := b.isMark && s.last.takesMarks

/-- Whether the line can be broken before a character that is not a mark of the last one. -/
def allowsSolid (s : BreakState) (b : BreakClass) : Bool :=
  if s.last = carriageReturn && b = lineFeed then false
  else if s.last.isLineEnd then true
  else if b.isLineEnd || b = space || b = zeroWidthSpace then false
  else if s.solid = zeroWidthSpace then true
  else if s.joined then false
  else if b = wordJoiner || s.last = wordJoiner || s.last = glue then false
  else if b = glue && !(s.last = space || s.last = after || s.last = hyphen) then false
  else if b.neverStarts then false
  else if s.solid = opening then false
  else if s.solid = quotation && b = opening then false
  else if (s.solid = closing || s.solid = parenthesis) && b = nonstarter then false
  else if s.solid = dash && b = dash then false
  else if s.last = space then true
  else if s.afterHebrew && (s.last = hyphen || s.last = after) then b = contingent
  else if s.last = regional && b = regional then !s.halfFlag
  else !joins s.last b

/-- Whether the line can be broken before a character. -/
def allows (s : BreakState) (b : BreakClass) : Bool :=
  if s.attaches b then false else s.allowsSolid (if b.isMark then letter else b)

/-- After one more character. -/
def next (s : BreakState) (b : BreakClass) : BreakState :=
  if s.attaches b then { s with joined := b = joiner }
  else
    let c := if b.isMark then letter else b
    ⟨c, if c = space then s.solid else c, s.last = hebrew, c = regional && !s.halfFlag,
      b = joiner⟩

end BreakState

/-- A line in parts, with a possible break between any two of them. The characters in `part`, in
reverse order, belong to the current part. -/
def linePartsFrom (s : BreakState) (part : List Char) : List Char → List (List Char)
  | [] => [part.reverse]
  | c :: cs =>
    let b := BreakClass.ofChar c
    if s.allows b then part.reverse :: linePartsFrom (s.next b) [c] cs
    else linePartsFrom (s.next b) (c :: part) cs

/-- A line in parts, with a possible break between any two of them. -/
def lineParts : List Char → List (List Char)
  | [] => []
  | c :: cs => linePartsFrom (.first (.ofChar c)) [c] cs

end Dataflow
