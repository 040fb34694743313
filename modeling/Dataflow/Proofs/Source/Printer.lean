import Dataflow.Source.Read

/-!
# Printing programs

Programs are printed with as few parentheses as the strengths of the operators allow. Statements
stand on lines of their own, and between two tokens there are blanks.

* `Node.bare`: a tree without its spans;
* `Node.Expression`, `Node.Statements`: the trees that can be written;
* `Node.tokens`: the tokens of an expression;
* `Spread`: a text with these tokens and blanks between them;
* `Writes`: a text of statements;
* `Node.print`: the text with the fewest blanks and line ends.
-/

namespace Dataflow

/-! ## Trees without spans -/

/-- The span of a node that was not read. -/
def Span.none : Span := ⟨0, 0⟩

namespace Node

mutual

/-- A tree without its spans. -/
def bare : Node → Node
  | list _ items => .list .none (allBare items)
  | assign _ names value => .assign .none names (bare value)
  | call _ callee args => .call .none (bare callee) (allBare args)
  | select _ value field form => .select .none (bare value) field form
  | function _ name params body => .function .none name params (bare body)
  | ident _ name => .ident .none name
  | literal _ value => .literal .none value

/-- Trees without their spans. -/
def allBare : List Node → List Node
  | [] => []
  | n :: ns => bare n :: allBare ns

end

end Node

/-! ## Trees that can be written -/

/-- A name of the grammar other than the keyword. -/
def isName (s : String) : Bool :=
  match s.toList with
  | [] => false
  | c :: cs => Rule.startsName c && cs.all Rule.continuesName && s != "fn"

/-- The binary operators in the order in which they are tried. -/
def Rule.binaries : List Rule := [.or, .and, .eq, .ne, .le, .ge, .lt, .gt, .add, .sub, .mul, .div, .rem]

/-- The rule of a binary operator. -/
def binaryRule? (op : String) : Option Rule := Rule.binaries.find? fun r => r.operatorText == op

/-- The strength of a binary operator. -/
def strengthOf (op : String) : Nat := ((binaryRule? op).map Rule.strength).getD 0

namespace Node

mutual

/-- The expressions that can be written. Binary and unary selects stand only for operators. -/
def Expression : Node → Prop
  | call _ (select _ left op .binary) [right] =>
    (binaryRule? op).isSome ∧ Expression left ∧ Expression right
  | call _ (select _ value op .unary) [] => (op = "-" ∨ op = "!") ∧ Expression value
  | call _ callee args => Expression callee ∧ Expressions args
  | select _ value field .member => isName field ∧ Expression value
  | ident _ name => isName name
  | literal _ (.int n) => 0 ≤ n
  | literal _ (.str s) => '\r' ∉ s.toList
  | literal _ (.float _) | select .. | list .. | assign .. | function .. => False

/-- Expressions that can be written. -/
def Expressions : List Node → Prop
  | [] => True
  | n :: ns => Expression n ∧ Expressions ns

end

mutual

/-- The statements that can be written. -/
def Statement : Node → Prop
  | function _ name params (list _ items) =>
    isName name ∧ (∀ p ∈ params, isName p) ∧ Statements items
  | function .. => False
  | assign _ names value => names ≠ [] ∧ (∀ n ∈ names, isName n) ∧ Expression value
  | n => Expression n

/-- Statements that can be written. -/
def Statements : List Node → Prop
  | [] => True
  | n :: ns => Statement n ∧ Statements ns

end

end Node

/-! ## Tokens -/

/-- A character of a string literal. -/
def escaped : Char → List Char
  | '\n' => ['\\', 'n']
  | '\t' => ['\\', 't']
  | '"' => ['\\', '"']
  | '\\' => ['\\', '\\']
  | c => [c]

/-- A string literal. -/
def stringText (s : String) : List Char := '"' :: (s.toList.flatMap escaped ++ ['"'])

/-- An integer literal. -/
def numeral (n : Int64) : List Char := Nat.toDigits 10 n.toInt.toNat

/-- Tokens, in parentheses where they are needed. -/
def enclose (needed : Bool) (ts : List (List Char)) : List (List Char) :=
  if needed then [['(']] ++ ts ++ [[')']] else ts

/-- Lists of tokens with commas between them. -/
def commas : List (List (List Char)) → List (List Char)
  | [] => []
  | [ts] => ts
  | ts :: tss => ts ++ [','] :: commas tss

/-- The strength of calls and field selects, above all operators. -/
def suffixStrength : Nat := unaryStrength + 1

namespace Node

mutual

/-- The tokens of an expression where only operators of the given strength or above may stand
without parentheses. -/
def tokens (level : Nat) : Node → List (List Char)
  | call _ (select _ left op .binary) [right] =>
    enclose (strengthOf op < level)
      (tokens (strengthOf op) left ++ [op.toList] ++ tokens (strengthOf op + 1) right)
  | call _ (select _ value op .unary) [] =>
    enclose (unaryStrength < level) (op.toList :: tokens unaryStrength value)
  | call _ callee args => tokens suffixStrength callee ++ [['(']] ++ commas (allTokens args) ++ [[')']]
  | select _ value field _ => tokens suffixStrength value ++ [['.'], field.toList]
  | ident _ name => [name.toList]
  | literal _ (.int n) => [numeral n]
  | literal _ (.str s) => [stringText s]
  | literal _ (.float _) | list .. | assign .. | function .. => []

/-- The tokens of expressions one by one. -/
def allTokens : List Node → List (List (List Char))
  | [] => []
  | n :: ns => tokens 0 n :: allTokens ns

end

end Node

/-! ## Texts -/

/-- One blank or more. -/
def Blank (b : List Char) : Prop := b ≠ [] ∧ ∀ c ∈ b, Rule.isBlank c = true

/-- Blanks and line ends. -/
def Loose (b : List Char) : Prop := ∀ c ∈ b, Rule.isBlank c = true ∨ c = '\n'

/-- A text with the given tokens and blanks between them. -/
inductive Spread : List (List Char) → List Char → Prop where
  | one (t : List Char) : Spread [t] t
  | cons {t b : List Char} {ts : List (List Char)} {cs : List Char} (hb : Blank b)
    (h : Spread ts cs) : Spread (t :: ts) (t ++ (b ++ cs))

/-- The tokens of a function up to its body. -/
def headTokens (name : String) (params : List String) : List (List Char) :=
  [['f', 'n'], name.toList, ['(']] ++ commas (params.map fun p => [p.toList]) ++ [[')'], [':']]

/-- A text of statements: each on a line of its own, function bodies as blocks, or as bare
expressions where they are one. -/
inductive Writes : List Node → List Char → Prop where
  | nil : Writes [] []
  | expression {n : Node} {cs : List Char} (hn : n.Expression) (h : Spread (n.tokens 0) cs) :
    Writes [n] cs
  | assign {span : Span} {names : List String} {value : Node} {cs : List Char}
    (h : Spread (commas (names.map fun n => [n.toList]) ++ ['='] :: value.tokens 0) cs) :
    Writes [.assign span names value] cs
  | bare {span inner : Span} {name : String} {params : List String} {body : Node} {cs : List Char}
    (hn : body.Expression) (h : Spread (headTokens name params ++ body.tokens 0) cs) :
    Writes [.function span name params (.list inner [body])] cs
  | empty {span inner : Span} {name : String} {params : List String} {cs b : List Char}
    (h : Spread (headTokens name params ++ [['\x7b']]) cs) (hb : Loose b) (hne : b ≠ []) :
    Writes [.function span name params (.list inner [])] (cs ++ b ++ ['\x7d'])
  | block {span inner : Span} {name : String} {params : List String} {items : List Node}
    {cs body b b' : List Char} (h : Spread (headTokens name params ++ [['\x7b']]) cs)
    (hi : items ≠ []) (hbody : Writes items body) (hb : Loose b) (hne : b ≠ []) (hb' : Loose b')
    (hne' : b' ≠ []) :
    Writes [.function span name params (.list inner items)] (cs ++ b ++ body ++ b' ++ ['\x7d'])
  | cons {n m : Node} {ns : List Node} {cs b rest : List Char} (h : Writes [n] cs) (hb : Loose b)
    (hline : '\n' ∈ b) (hrest : Writes (m :: ns) rest) : Writes (n :: m :: ns) (cs ++ b ++ rest)

/-! ## One text -/

/-- Tokens with a space between them. -/
def spaced : List (List Char) → List Char
  | [] => []
  | [t] => t
  | t :: ts => t ++ ' ' :: spaced ts

namespace Node

mutual

/-- The text of a statement, with a space between two tokens and function bodies as blocks. -/
def printOne : Node → List Char
  | function _ name params (list _ items) =>
    spaced (headTokens name params ++ [['\x7b']]) ++ '\n' :: (print items ++ ['\n', '\x7d'])
  | assign _ names value =>
    spaced (commas (names.map fun n => [n.toList]) ++ ['='] :: value.tokens 0)
  | n => spaced (n.tokens 0)

/-- The text of statements, each on a line of its own. -/
def print : List Node → List Char
  | [] => []
  | [n] => printOne n
  | n :: ns => printOne n ++ '\n' :: print ns

end

end Node

end Dataflow
