import Dataflow.Decimal.Read
import Dataflow.Grammar.Match
import Dataflow.Source.Nesting
import Dataflow.Source.Operators

/-!
# Reading programs

A text is measured, matched against the grammar, and its match is turned into a program tree.

* `unescape`: the text a string literal stands for;
* `Tree.statement`, `Tree.item`: nodes from matches;
* `Node.parse`: programs from texts.
-/

namespace Dataflow

/-! ## Literals -/

/-- Resolves the escapes of a string literal whose body begins at byte `offset`. -/
def unescape (offset : Nat) : List Char → Except SourceError (List Char)
  | [] => .ok []
  | '\\' :: c :: cs => do
    let plain ← match c with
      | 'n' => pure '\n'
      | 't' => pure '\t'
      | '"' => pure '"'
      | '\\' => pure '\\'
      | _ => .error ⟨.badEscape c, ⟨offset, offset + 1 + c.utf8Size⟩⟩
    return plain :: (← unescape (offset + 1 + c.utf8Size) cs)
  | '\\' :: [] => .error ⟨.malformed "string: lone backslash", ⟨offset, offset + 1⟩⟩
  | c :: cs => return c :: (← unescape (offset + c.utf8Size) cs)

/-- The value of an integer literal, which has 64 bits and a sign. -/
def readInteger (span : Span) (digits : List Char) : Except SourceError Int64 :=
  let n := Decimal.natOfDigits digits
  if n ≤ 0x7fffffffffffffff then .ok (Int64.ofNat n)
  else .error ⟨.badNumber (String.ofList digits), span⟩

/-- A token as a node. -/
def leafNode (rule : Rule) (span : Span) (text : List Char) : Except SourceError Node :=
  match rule with
  | .integer => return .literal span (.int (← readInteger span text))
  | .float => return .literal span (.float (Decimal.floatOfText text))
  | .string =>
    return .literal span (.str (String.ofList (← unescape (span.start + 1) text.tail.dropLast)))
  | .ident => return .ident span (String.ofList text)
  | _ => .error ⟨.malformed "expression", span⟩

/-! ## Trees -/

/-- The texts of the tokens among the matches. -/
def leafTexts : List (Tree Rule) → List String
  | [] => []
  | .leaf _ _ text :: ts => String.ofList text :: leafTexts ts
  | .node .. :: ts => leafTexts ts

/-- The tree of a flat expression at `span`. -/
def expressionOf (span : Span) (items : List Item) : Except SourceError Node :=
  match Item.tree? items with
  | some node => .ok node
  | none => .error ⟨.malformed "expression", span⟩

namespace Tree

mutual

/-- A statement, or an expression wherever it stands. -/
def toNode : Tree Rule → Except SourceError Node
  | .leaf rule span text => leafNode rule span text
  | .node .expression span ts => do expressionOf span (← toItems ts)
  | .node .grouped span ts => do
    match ← toNodes ts with
    | [inner] => return inner
    | _ => .error ⟨.malformed "parenthesized expression", span⟩
  | .node .assignment span ts => do
    match (← toNodes ts).getLast? with
    | some value => return .assign span (leafTexts ts) value
    | none => .error ⟨.malformed "assignment", span⟩
  | .node .function span [.leaf _ _ name, .node _ _ params, .node .block inner ts] => do
    return .function span (String.ofList name) (leafTexts params) (.list inner (← toNodes ts))
  | .node .function span [.leaf _ _ name, .node _ _ params, .node .expression inner ts] => do
    let value ← expressionOf inner (← toItems ts)
    return .function span (String.ofList name) (leafTexts params) (.list inner [value])
  | .node _ span _ => .error ⟨.malformed "statement", span⟩

/-- The nodes of the matches in order; the end of the input is not one. -/
def toNodes : List (Tree Rule) → Except SourceError (List Node)
  | [] => return []
  | .node .finish _ _ :: ts => toNodes ts
  | t :: ts => return (← toNode t) :: (← toNodes ts)

/-- One part of a flat expression. -/
def toItem : Tree Rule → Except SourceError Item
  | .leaf rule span text => return .operand (← leafNode rule span text)
  | .node .callOp span ts => return .call (← toNodes ts) span.stop
  | .node .fieldOp span ts =>
    match leafTexts ts with
    | [name] => return .field name span.stop
    | _ => .error ⟨.malformed "field select", span⟩
  | .node .grouped span ts => do
    match ← toNodes ts with
    | [inner] => return .operand inner
    | _ => .error ⟨.malformed "parenthesized expression", span⟩
  | .node .neg span _ => return .unary "-" span
  | .node .not span _ => return .unary "!" span
  | .node rule span _ => return .binary rule.operatorText rule.strength span

/-- The parts of a flat expression. -/
def toItems : List (Tree Rule) → Except SourceError (List Item)
  | [] => return []
  | t :: ts => return (← toItem t) :: (← toItems ts)

end

end Tree

/-! ## Programs -/

namespace Node

/-- The nesting that is allowed unless a limit is given. -/
def defaultNesting : Nat := 256

/-- Reads a program whose nesting stays within `limit`. Its root is a list that spans the text. -/
def parseWithin (limit : Nat) (source : String) : Except SourceError Node := do
  let cs := source.toList
  Nesting.check limit cs
  match Rule.grammar.start .program cs with
  | (.done _ [.node .program _ ts], _) =>
    return .list ⟨0, source.utf8ByteSize⟩ (← Tree.toNodes ts)
  | (.failed, attempts) =>
    .error ⟨.unexpected (Rule.expectation attempts.rules), ⟨attempts.furthest, attempts.furthest⟩⟩
  | _ => .error ⟨.malformed "program", ⟨0, source.utf8ByteSize⟩⟩

/-- Reads a program. -/
def parse (source : String) : Except SourceError Node := parseWithin defaultNesting source

/-- The statements of a program. -/
def statements : Node → List Node
  | list _ items => items
  | other => [other]

end Node

end Dataflow
