import Dataflow.Value.Basic

/-!
# Activations

Every run of a function body, and every run of a unit, has an activation that holds its values under
consecutive numbers. Each value is written once.

A closure over the activation that holds it is kept as a declaration. It is put together when it is
read, as a function of its own each time.

* `Slot`: what an activation keeps of a value;
* `Activation`: the values of one run of a function body.
-/

namespace Dataflow

/-- What an activation keeps of a value. -/
inductive Slot where
  | value (v : Value)
  /-- A function that is declared in this activation. -/
  | declared (graph : Graph) (unit : Nat) (id : ValueId)
  deriving Inhabited

/-- What activation number `scope` keeps of a value. -/
def Slot.keep (scope : Nat) : Value → Slot
  | .function (.closure identity c) =>
    if c.scope = scope then .declared c.graph c.unit c.id
    else .value (.function (.closure identity c))
  | v => .value v

/-- The values of one run of a function body, the first of them with the number `first`. -/
structure Activation where
  /-- The activation in which the function was declared. -/
  parent : Option Nat
  first : ValueId
  slots : Array (Option Slot)
  deriving Inhabited

namespace Activation

/-- An activation for `count` values, none of them written. -/
def blank (parent : Option Nat) (first : ValueId) (count : Nat) : Activation :=
  ⟨parent, first, Array.replicate count none⟩

/-- Where the value with a number is kept, if it belongs here. -/
def offset? (a : Activation) (id : ValueId) : Option Nat :=
  let offset := id.toInt - a.first.toInt
  if 0 ≤ offset ∧ offset < a.slots.size then some offset.toNat else none

/-- What is kept under a number. -/
def slot? (a : Activation) (id : ValueId) : Option Slot := do
  let offset ← a.offset? id
  (← a.slots[offset]?)

/-- The activation with one more value. -/
def put (a : Activation) (offset : Nat) (s : Slot) : Activation :=
  { a with slots := a.slots.modify offset fun _ => some s }

end Activation

end Dataflow
