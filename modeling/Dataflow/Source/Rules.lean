import Dataflow.Grammar.Pattern

/-!
# The grammar of programs

Newlines separate statements, so they are not blank; a comment runs from `#` to the end of its line.

* `Rule`: the rules that a tree or an error message can name, in the order in which messages list
  them;
* `Rule.grammar`: the grammar itself.
-/

namespace Dataflow

/-- The rules of the language. -/
inductive Rule where
  | finish
  | program
  | function
  | params
  | block
  | assignment
  | expression
  | or
  | and
  | eq
  | ne
  | le
  | ge
  | lt
  | gt
  | add
  | sub
  | mul
  | div
  | rem
  | neg
  | not
  | callOp
  | fieldOp
  | field
  | grouped
  | float
  | integer
  | string
  | ident
  deriving DecidableEq, Repr, Inhabited

namespace Rule

open Pattern

/-- Every rule, in the order in which messages list them. -/
def all : List Rule :=
  [finish, program, function, params, block, assignment, expression, or, and, eq, ne, le, ge, lt,
    gt, add, sub, mul, div, rem, neg, not, callOp, fieldOp, field, grouped, float, integer, string,
    ident]

/-! ## Characters -/

/-- A decimal digit. -/
def isDigit (c : Char) : Bool := '0' ≤ c && c ≤ '9'

/-- A letter of a name. -/
def isLetter (c : Char) : Bool := ('a' ≤ c && c ≤ 'z') || ('A' ≤ c && c ≤ 'Z')

/-- What a name can start with. -/
def startsName (c : Char) : Bool := isLetter c || c == '_'

/-- What a name can go on with. -/
def continuesName (c : Char) : Bool := isLetter c || isDigit c || c == '_'

/-- Blank characters; the carriage return is both blank and the start of a line end. -/
def isBlank (c : Char) : Bool := c == ' ' || c == '\t' || c == '\r'

/-- The end of a line. -/
def lineEnd : Pattern Rule := alts [word "\n", word "\r\n", word "\r"]

/-- Any character. -/
def anyChar : Pattern Rule := satisfy fun _ => true

/-- A comment up to the end of its line. -/
def comment : Pattern Rule := seq (word "#") (star (seq (absent lineEnd) anyChar))

/-- Blanks and comments. -/
def blank : Pattern Rule :=
  seq (star (satisfy isBlank)) (star (seq comment (star (satisfy isBlank))))

/-! ## Tokens -/

/-- One digit or more. -/
def digits : Pattern Rule := plus (satisfy isDigit)

/-- The exponent of a float. -/
def exponent : Pattern Rule :=
  seqs [alt (word "e") (word "E"), opt (alt (word "+") (word "-")), digits]

/-- A name, the keyword included. -/
def name : Pattern Rule := seq (satisfy startsName) (star (satisfy continuesName))

/-- The keyword that opens a function, as a whole word. -/
def keyword : Pattern Rule := seq (word "fn") (absent (satisfy continuesName))

/-- A character of a string literal that stands for itself. -/
def plainChar : Pattern Rule := seq (absent (alts [word "\"", word "\\", lineEnd])) anyChar

/-- A backslash and the character after it. -/
def escape : Pattern Rule := seq (word "\\") anyChar

/-- The operators that can be selected as fields. -/
def operator : Pattern Rule :=
  alts (["||", "&&", "==", "!=", "<=", ">=", "<", ">", "+", "-", "*", "/", "%", "!"].map word)

/-! ## Statements and expressions -/

/-- What separates two statements. -/
def separator : Pattern Rule := alt lineEnd (word ";")

/-- A function, an assignment or an expression. -/
def statement : Pattern Rule := alts [rule function, rule assignment, rule expression]

/-- Statements with separators before, between and after them. -/
def statements : Pattern Rule :=
  seqs [star separator, opt (separated (plus separator) statement), star separator]

/-- A binary operator. -/
def binary : Pattern Rule :=
  alts ([or, and, eq, ne, le, ge, lt, gt, add, sub, mul, div, rem].map rule)

/-- A unary operator. -/
def unary : Pattern Rule := alt (rule neg) (rule not)

/-- A call or a field select. -/
def suffix : Pattern Rule := alt (rule callOp) (rule fieldOp)

/-- An operand without operators. -/
def primary : Pattern Rule :=
  alts [rule float, rule integer, rule string, rule grouped, rule ident]

/-- What each rule matches. -/
def body : Rule → Pattern Rule
  | finish => .finish
  | program => seqs [empty, statements, rule finish]
  | function =>
    seqs [word "fn", rule ident, word "(", rule params, word ")", word ":",
      alt (rule block) (rule expression)]
  | params => opt (separated (word ",") (rule ident))
  | block => seqs [word "\x7b", statements, word "\x7d"]
  | assignment =>
    seqs [rule ident, star (seq (word ",") (rule ident)), absent (word "=="), word "=",
      rule expression]
  | expression =>
    seqs [star unary, primary, star suffix,
      star (seqs [binary, star unary, primary, star suffix])]
  | or => word "||"
  | and => word "&&"
  | eq => word "=="
  | ne => word "!="
  | le => word "<="
  | ge => word ">="
  | lt => word "<"
  | gt => word ">"
  | add => word "+"
  | sub => word "-"
  | mul => word "*"
  | div => word "/"
  | rem => word "%"
  | neg => word "-"
  | not => word "!"
  | callOp => seqs [word "(", opt (separated (word ",") (rule expression)), word ")"]
  | fieldOp => seq (word ".") (rule field)
  | field => alt name operator
  | grouped => seqs [word "(", rule expression, word ")"]
  | float => seq digits (alt (seqs [word ".", digits, opt exponent]) exponent)
  | integer => digits
  | string => seqs [word "\"", star (alt plainChar escape), word "\""]
  | ident => seq (absent keyword) name

/-- The rules that are tokens: no blanks are skipped inside them. -/
def isToken : Rule → Bool
  | field | float | integer | string | ident => true
  | _ => false

/-- The grammar of the language. -/
def grammar : Grammar Rule := ⟨body, isToken, blank⟩

/-- What a message calls a rule. -/
def concept : Rule → String
  | integer | float | string => "literal"
  | ident => "identifier"
  | field => "field name"
  | finish => "end of input"
  | or | and | eq | ne | le | ge | lt | gt | add | sub | mul | div | rem => "operator"
  | callOp | fieldOp => "call or field"
  | _ => "expression"

/-- The operator a rule matches, if it is one. -/
def operatorText : Rule → String
  | or => "||"
  | and => "&&"
  | eq => "=="
  | ne => "!="
  | le => "<="
  | ge => ">="
  | lt => "<"
  | gt => ">"
  | add => "+"
  | sub | neg => "-"
  | mul => "*"
  | div => "/"
  | rem => "%"
  | not => "!"
  | _ => ""

end Rule

end Dataflow
