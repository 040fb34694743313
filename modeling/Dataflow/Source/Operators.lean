import Dataflow.Source.Node
import Dataflow.Source.Rules

/-!
# Operators

An expression is read as a flat list of operands and operators, and the binding strength of the
operators gives it its tree. Binary operators associate to the left, unary operators bind more
tightly than they do, calls and field selects most tightly of all.

* `Rule.strength`: how tightly a binary operator binds;
* `Item`: an operand or an operator of a flat expression;
* `Item.tree?`: the tree of a flat expression.
-/

namespace Dataflow

/-- How tightly a binary operator binds. -/
def Rule.strength : Rule → Nat
  | .or => 1
  | .and => 2
  | .eq | .ne => 3
  | .lt | .gt | .le | .ge => 4
  | .add | .sub => 5
  | .mul | .div | .rem => 6
  | _ => 0

/-- The strength of unary operators, above every binary one. -/
def unaryStrength : Nat := 7

/-- A part of a flat expression. -/
inductive Item where
  | operand (node : Node)
  | unary (op : String) (span : Span)
  | binary (op : String) (strength : Nat) (span : Span)
  /-- A call with these arguments, whose bracket ends at byte `stop`. -/
  | call (args : List Node) (stop : Nat)
  /-- A select of this field, whose name ends at byte `stop`. -/
  | field (name : String) (stop : Nat)

namespace Node

/-- A unary operator before its operand. -/
def ofUnary (op : String) (place : Span) (operand : Node) : Node :=
  call (place.cover operand.span) (select place operand op .unary) []

/-- A binary operator between its operands. -/
def ofBinary (left : Node) (op : String) (place : Span) (right : Node) : Node :=
  call (left.span.cover right.span) (select place left op .binary) [right]

/-- A call whose bracket ends at byte `stop`. -/
def ofCall (callee : Node) (args : List Node) (stop : Nat) : Node :=
  call ⟨callee.span.start, stop⟩ callee args

/-- A field select that ends at byte `stop`. -/
def ofField (value : Node) (field : String) (stop : Nat) : Node :=
  select ⟨value.span.start, stop⟩ value field .member

end Node

namespace Item

mutual

/-- Reads an operand and all that binds to it more tightly than `floor`. -/
def climb (floor : Nat) (items : List Item) :
    Option (Node × { rest : List Item // rest.length < items.length }) :=
  match items with
  | operand node :: rest =>
    match extend floor node rest with
    | some (tree, ⟨rest₁, h₁⟩) => some (tree, ⟨rest₁, by simp; omega⟩)
    | none => none
  | unary op span :: rest =>
    match climb (unaryStrength - 1) rest with
    | some (inner, ⟨rest₁, h₁⟩) =>
      match extend floor (.ofUnary op span inner) rest₁ with
      | some (tree, ⟨rest₂, h₂⟩) => some (tree, ⟨rest₂, by simp; omega⟩)
      | none => none
    | none => none
  | _ => none
termination_by (items.length, 0)

/-- Goes on from the tree `left` with all that binds more tightly than `floor`. -/
def extend (floor : Nat) (left : Node) (items : List Item) :
    Option (Node × { rest : List Item // rest.length ≤ items.length }) :=
  match items with
  | [] => some (left, ⟨[], by simp⟩)
  | binary op strength span :: rest =>
    if floor < strength then
      match climb strength rest with
      | some (right, ⟨rest₁, h₁⟩) =>
        match extend floor (left.ofBinary op span right) rest₁ with
        | some (tree, ⟨rest₂, h₂⟩) => some (tree, ⟨rest₂, by simp; omega⟩)
        | none => none
      | none => none
    else some (left, ⟨binary op strength span :: rest, by simp⟩)
  | call args stop :: rest =>
    match extend floor (left.ofCall args stop) rest with
    | some (tree, ⟨rest₁, h₁⟩) => some (tree, ⟨rest₁, by simp; omega⟩)
    | none => none
  | field name stop :: rest =>
    match extend floor (left.ofField name stop) rest with
    | some (tree, ⟨rest₁, h₁⟩) => some (tree, ⟨rest₁, by simp; omega⟩)
    | none => none
  | _ => none
termination_by (items.length, 1)

end

/-- The tree of a flat expression, if its operators have their operands. -/
def tree? (items : List Item) : Option Node := (climb 0 items).map (·.1)

end Item

end Dataflow
