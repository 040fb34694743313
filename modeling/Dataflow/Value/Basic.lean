import Dataflow.Graph.Basic
import Dataflow.Value.Builtin

/-!
# Values

Functions, methods and libraries have an identity: they are equal to themselves only. Built-in
functions are the same wherever they are found; every method that is selected, every closure and
every library gets a number of its own.

* `Value`, `Function`: what programs compute with;
* `Function.same`: identity of functions;
* `Value.hostEq`: equality as far as it can be decided without running anything.
-/

namespace Dataflow

/-- What a native function runs: something built in, or the host's function with this number. -/
inductive Native.Body where
  | builtin (b : Builtin)
  | host (number : Nat)
  deriving DecidableEq, Repr, Inhabited

/-- A function that is not written in the language. -/
structure Native where
  name : String
  forms : Forms
  signature : Signature
  body : Native.Body
  deriving DecidableEq, Repr, Inhabited

/-- A built-in function. -/
def Builtin.native (b : Builtin) : Native := ⟨b.name, .onlyMember, b.signature, .builtin b⟩

/-- A function body with the unit and the activation it was declared in, both by number. -/
structure Closure where
  graph : Graph
  unit : Nat
  scope : Nat
  id : ValueId
  deriving Inhabited

mutual

/-- A value of the language. -/
inductive Value where
  | unit
  | bool (b : Bool)
  | int (n : Int64)
  | float (x : Float)
  | str (s : String)
  | tuple (items : List Value)
  | function (f : Function)
  /-- A struct: selecting a field calls the dispatch function with the field's name. -/
  | struct (dispatch : Function)
  | library (identity : Nat) (name : String) (symbols : List (String × Value))

/-- What can be called. -/
inductive Function where
  | native (n : Native)
  /-- A method together with the value it was selected from. -/
  | method (identity : Nat) (receiver : Value) (m : Method)
  | closure (identity : Nat) (c : Closure)

end

instance : Inhabited Value := ⟨.unit⟩

namespace Value

/-- The type of a value. -/
def type : Value → ValueType
  | unit => .unit
  | bool _ => .bool
  | int _ => .int
  | float _ => .float
  | str _ => .string
  | tuple _ => .tuple
  | function _ => .function
  | struct _ => .struct
  | library .. => .library

/-- A built-in function as a value. -/
def ofBuiltin (b : Builtin) : Value := function (.native b.native)

end Value

namespace Function

/-- The name of a function in messages. -/
def name : Function → String
  | native n => n.name
  | method _ receiver m => receiver.type.word ++ "." ++ m.name
  | closure _ c => "closure " ++ c.id.text

/-- The forms in which a function can be selected. -/
def forms : Function → Forms
  | native n => n.forms
  | method _ _ m => m.forms
  | closure .. => .all

/-- How many parameters a closure has. -/
def params? : Function → Option Nat
  | closure _ c => some c.graph.params.toNat
  | _ => none

/-- Whether two functions are one and the same. -/
def same : Function → Function → Bool
  | native a, native b => a.body == b.body
  | method a _ _, method b _ _ => a == b
  | closure a _, closure b _ => a == b
  | _, _ => false

end Function

namespace Value

mutual

/-- Equality without running anything: by content, functions and libraries by identity, structs by
their dispatch functions. Values of different types differ. -/
def hostEq : Value → Value → Bool
  | unit, unit => true
  | bool a, bool b => a == b
  | int a, int b => a == b
  | float a, float b => a == b
  | str a, str b => a == b
  | tuple as, tuple bs => hostEqAll as bs
  | function f, function g => f.same g
  | struct f, struct g => f.same g
  | library i _ _, library j _ _ => i == j
  | _, _ => false

/-- Equality of lists, element by element. -/
def hostEqAll : List Value → List Value → Bool
  | [], [] => true
  | a :: as, b :: bs => hostEq a b && hostEqAll as bs
  | _, _ => false

end

/-! ## Text -/

/-- Items in brackets; a single one has a comma behind it. -/
def bracketed (items : List String) : String :=
  "(" ++ String.intercalate ", " items ++ (if items.length = 1 then "," else "") ++ ")"

end Value

end Dataflow
