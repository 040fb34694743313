import Dataflow.Source.Node

/-!
# Instructions

Instructions work without a stack. Each instruction that produces a value defines the next value
number of the scope it stands in, and operands name earlier values by their numbers:

    x = 2        constant #0            v0
    y = x + 3    field v0 #1 binary     v1
                 constant #2            v2
                 argument v2
                 call v1                v3

`enter` and `leave` enclose a function body. Its values are numbered on from those of the enclosing
scope, parameters first. Negative numbers name built-in values.
-/

namespace Dataflow

/-- The number of a value: negative for built-in values. -/
abbrev ValueId := Int32

/-- The position of a constant in its pool. -/
abbrev ConstantId := UInt32

/-- A value number as listings show it. -/
def ValueId.text (id : ValueId) : String := "v" ++ toString id.toInt

/-- Whether a number names a built-in value. -/
def ValueId.isBuiltin (id : ValueId) : Bool := id < 0

/-- The instructions. -/
inductive Instruction where
  /-- One more argument for the next call. -/
  | argument (id : ValueId)
  /-- Calls a value with the arguments that stand before it. -/
  | call (id : ValueId)
  /-- A constant of the pool. -/
  | constant (id : ConstantId)
  /-- A field of a value; its name is a constant. -/
  | field (value : ValueId) (name : ConstantId) (form : Form)
  /-- Opens a function body. -/
  | enter (params : UInt32)
  /-- Closes the innermost function body. -/
  | leave
  /-- A value once more, under a number of this scope. -/
  | copy (id : ValueId)
  deriving DecidableEq, Repr, Inhabited

namespace Instruction

/-- Whether the instruction defines a value. -/
def producesValue : Instruction → Bool
  | call _ | constant _ | field .. | copy _ => true
  | argument _ | enter _ | leave => false

/-- The value an instruction reads. -/
def operand? : Instruction → Option ValueId
  | argument id | call id | copy id | field id _ _ => some id
  | constant _ | enter _ | leave => none

/-- An instruction as listings show it. -/
def listing : Instruction → String
  | argument id => "PushArgument(" ++ id.text ++ ")"
  | call id => "ValueFromCall(" ++ id.text ++ ")"
  | constant id => "ValueFromConstant(#" ++ toString id.toNat ++ ")"
  | field value name form =>
    "ValueFromStructValue(" ++ value.text ++ ", #" ++ toString name.toNat ++ ", " ++ form.word
      ++ ")"
  | enter params => "PushFunction(" ++ toString params.toNat ++ ")"
  | leave => "PopFunction"
  | copy id => "ValueCopy(" ++ id.text ++ ")"

end Instruction

end Dataflow
