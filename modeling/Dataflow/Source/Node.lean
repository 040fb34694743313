import Dataflow.Source.Span

/-!
# Program trees

The node set is small: statement lists, assignments, calls, field selects, function declarations,
names and literals. Operators have no nodes of their own: `a + b` calls the select `a.+` in its
binary form with the one argument `b`, and `-a` calls the select `a.-` in its unary form with none.

* `Form`: the three ways a field can be selected;
* `Node`: trees, every node with its span.
-/

namespace Dataflow

/-- How a field is selected: `a.f`, `a f b` or `f a`. -/
inductive Form where
  | member
  | binary
  | unary
  deriving DecidableEq, Repr, Inhabited

/-- The word a form is called by in messages and listings. -/
def Form.word : Form → String
  | .member => "normal"
  | .binary => "infix"
  | .unary => "prefix"

/-- A literal of the language. -/
inductive Literal where
  | int (n : Int64)
  | float (x : Float)
  | str (s : String)
  deriving Inhabited

/-- A tree of the language; every node knows the span it was read from. -/
inductive Node where
  /-- Statements in order; the value of the list is the value of its last statement. -/
  | list (span : Span) (items : List Node)
  /-- `a, b = value` binds every name to the same value. -/
  | assign (span : Span) (names : List String) (value : Node)
  | call (span : Span) (callee : Node) (args : List Node)
  | select (span : Span) (value : Node) (field : String) (form : Form)
  /-- `fn name(params): body`. -/
  | function (span : Span) (name : String) (params : List String) (body : Node)
  | ident (span : Span) (name : String)
  | literal (span : Span) (value : Literal)
  deriving Inhabited

namespace Node

/-- The span a node was read from. -/
def span : Node → Span
  | list s _ | assign s _ _ | call s _ _ | select s _ _ _ | function s _ _ _ | ident s _
  | literal s _ => s

/-- Whether the node is a function declaration. -/
def isFunction : Node → Bool
  | function .. => true
  | _ => false

/-- Whether the node is a bare name. -/
def isIdent : Node → Bool
  | ident .. => true
  | _ => false

end Node

end Dataflow
