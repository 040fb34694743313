import Dataflow.Source.Node

/-!
# Kinds, forms and signatures

What a function says about the way it is called, before any value is looked at.

* `Forms`: the forms in which a function can be selected;
* `ValueType`, `Kind`: the types of values, and what a parameter accepts;
* `Signature`: the parameters of a function.
-/

namespace Dataflow

/-- The forms in which a function can be selected. -/
structure Forms where
  member : Bool
  binary : Bool
  unary : Bool
  deriving DecidableEq, Repr, Inhabited

namespace Forms

/-- No form at all. -/
def none : Forms := ⟨false, false, false⟩

/-- Every form. -/
def all : Forms := ⟨true, true, true⟩

/-- Only `a.f`. -/
def onlyMember : Forms := ⟨true, false, false⟩

/-- Only `a f b`. -/
def onlyBinary : Forms := ⟨false, true, false⟩

/-- Only `f a`. -/
def onlyUnary : Forms := ⟨false, false, true⟩

/-- Whether a form is among them. -/
def admits (fs : Forms) : Form → Bool
  | .member => fs.member
  | .binary => fs.binary
  | .unary => fs.unary

/-- The forms in order. -/
def toList (fs : Forms) : List Form := [Form.member, Form.binary, Form.unary].filter fs.admits

end Forms

/-- The types of values. -/
inductive ValueType where
  | unit
  | bool
  | int
  | float
  | string
  | tuple
  | function
  | struct
  | library
  deriving DecidableEq, Repr, Inhabited

/-- The name of a type. -/
def ValueType.word : ValueType → String
  | unit => "unit"
  | bool => "bool"
  | int => "int"
  | float => "float"
  | string => "string"
  | tuple => "tuple"
  | function => "function"
  | struct => "struct"
  | library => "library"

/-- What a parameter accepts. -/
inductive Kind where
  | any
  | unit
  | bool
  | int
  | float
  /-- An integer or a float. -/
  | number
  | string
  | tuple
  | function
  deriving DecidableEq, Repr, Inhabited

namespace Kind

/-- The name of a kind in messages. -/
def word : Kind → String
  | any => "any value"
  | unit => "unit"
  | bool => "bool"
  | int => "int"
  | float => "float"
  | number => "number"
  | string => "string"
  | tuple => "tuple"
  | function => "function"

/-- Whether values of a type are accepted. -/
def admits : Kind → ValueType → Bool
  | any, _ => true
  | unit, t => t == .unit
  | bool, t => t == .bool
  | int, t => t == .int
  | float, t => t == .float
  | number, t => t == .int || t == .float
  | string, t => t == .string
  | tuple, t => t == .tuple
  | function, t => t == .function

end Kind

/-- The parameters of a function; those of a method leave out the value it belongs to. -/
structure Signature where
  params : List Kind
  /-- How many of the parameters must be given. -/
  required : Nat
  /-- What further arguments have to be, if there can be any. -/
  rest : Option Kind
  deriving DecidableEq, Repr, Inhabited

namespace Signature

/-- Exactly these parameters. -/
def exact (params : List Kind) : Signature := ⟨params, params.length, none⟩

/-- These parameters, of which only the first ones are required. -/
def optional (params : List Kind) (required : Nat) : Signature := ⟨params, required, none⟩

/-- Any number of arguments of one kind. -/
def variadic (kind : Kind) : Signature := ⟨[], 0, some kind⟩

/-- How many arguments are expected, in words. -/
def arity (s : Signature) : String :=
  match s.rest with
  | some _ => if s.required = 0 then "any number of" else s!"at least {s.required}"
  | none =>
    if s.required = s.params.length then toString s.required
    else s!"{s.required} to {s.params.length}"

/-- What the argument at an index has to be. -/
def kindAt (s : Signature) (index : Nat) : Option Kind := s.params[index]? <|> s.rest

/-- Whether as many arguments are accepted. -/
def acceptsCount (s : Signature) (count : Nat) : Bool :=
  s.required ≤ count && (s.rest.isSome || count ≤ s.params.length)

end Signature

end Dataflow
