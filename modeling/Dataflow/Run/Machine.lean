import Dataflow.Code.Unit
import Dataflow.Run.Error
import Dataflow.Run.Scope
import Dataflow.Value.Environment

/-!
# The machine

Units and activations are known by their numbers and stay for good, so a closure can be called long
after the run that made it.

* `Machine`: units, activations, and what has been printed and loaded;
* `Run`: computations on a machine. A failure leaves the machine as it was at that moment;
* `Run.read`, `Run.write`, `Run.find`: the values of activations.
-/

namespace Dataflow

/-- The value a constant stands for. -/
def Constant.value? (c : Constant) : Option Value :=
  match c.kind with
  | .integer => c.toInt?.map .int
  | .float => c.toFloat?.map .float
  | .string => c.toText?.map .str

/-- What the functions of a unit share: its constants and the environment it was compiled
against. -/
structure Image where
  constants : Array Constant
  environment : Environment
  deriving Inhabited

/-- The state of a run. -/
structure Machine where
  images : Array Image
  activations : Array Activation
  /-- How many identities have been given out. -/
  identities : Nat
  /-- What has been printed, piece by piece. -/
  printed : Array String
  /-- The names that have been loaded, in order. -/
  loads : Array String
  deriving Inhabited

namespace Machine

/-- A machine on which nothing has run. -/
def blank : Machine := ⟨#[], #[], 0, #[], #[]⟩

/-- Everything that has been printed. -/
def output (m : Machine) : String := String.join m.printed.toList

/-- What an activation keeps under a number. -/
def slot? (m : Machine) (scope : Nat) (id : ValueId) : Option Slot := do
  (← m.activations[scope]?).slot? id

/-- The activation that a number belongs to: from `scope` outward, the first that does not start
above it. Outer activations are older. -/
def holder? (m : Machine) (id : ValueId) (scope : Nat) : Option Nat :=
  match m.activations[scope]? with
  | none => none
  | some a =>
    if a.first ≤ id then some scope
    else
      match a.parent with
      | none => none
      | some outer => if _ : outer < scope then m.holder? id outer else none
termination_by scope

end Machine

/-- Why a run stops. -/
inductive Stop where
  | error (e : RunError)
  /-- More steps than were allowed. -/
  | exhausted
  deriving DecidableEq, Repr, Inhabited

/-- A computation on a machine. -/
abbrev Run := EStateM Stop Machine

namespace Run

variable {α : Type}

/-- Stops with an error. -/
def fail (e : RunError) : Run α := throw (.error e)

/-- Stops because of something wrong with a unit. -/
def malformed (m : Malformation) : Run α := fail (.malformed m)

/-- A result as a computation. -/
def ofExcept : Except RunError α → Run α
  | .ok a => pure a
  | .error e => fail e

/-- The result of a computation, be it a value or an error. What was done before an error stays
done. -/
def attempt (r : Run α) : Run (Except RunError α) := fun m =>
  match r m with
  | .ok a m => .ok (.ok a) m
  | .error (.error e) m => .ok (.error e) m
  | .error .exhausted m => .error .exhausted m

/-- A number that nothing else has. -/
def fresh : Run Nat := modifyGet fun m => (m.identities, { m with identities := m.identities + 1 })

/-- Prints a text. -/
def print (text : String) : Run Unit := modify fun m => { m with printed := m.printed.push text }

/-- Notes that a name is loaded. -/
def noteLoad (target : String) : Run Unit := modify fun m => { m with loads := m.loads.push target }

/-- Does something without keeping what it prints. -/
def quietly (r : Run α) : Run α := fun m =>
  let printed := m.printed
  match r { m with printed := #[] } with
  | .ok a m => .ok a { m with printed }
  | .error e m => .error e { m with printed }

/-- A new image, by number. -/
def addImage (image : Image) : Run Nat :=
  modifyGet fun m => (m.images.size, { m with images := m.images.push image })

/-- A new activation, by number. -/
def enter (parent : Option Nat) (first : ValueId) (count : Nat) : Run Nat :=
  modifyGet fun m =>
    (m.activations.size,
      { m with activations := m.activations.push (.blank parent first count) })

/-- The value of an activation under a number. -/
def read (scope : Nat) (id : ValueId) : Run (Option Value) := do
  match (← get).slot? scope id with
  | none => return none
  | some (.value v) => return some v
  | some (.declared graph unit id) =>
    return some (.function (.closure (← fresh) ⟨graph, unit, scope, id⟩))

/-- Keeps something in an activation under a number. -/
def put (scope : Nat) (id : ValueId) (s : Slot) : Run Unit := fun m =>
  match (m.activations[scope]?).bind (·.offset? id) with
  | none => malformed (.outsideScope id) m
  | some offset =>
    if (m.slot? scope id).isSome then malformed (.writtenTwice id) m
    else .ok () { m with activations := m.activations.modify scope (·.put offset s) }

/-- Writes the value of an activation under a number. -/
def write (scope : Nat) (id : ValueId) (v : Value) : Run Unit := put scope id (.keep scope v)

/-- The value under a number, seen from an activation. -/
def find (scope : Nat) (id : ValueId) : Run Value := do
  match (← get).holder? id scope with
  | none => fail (.unavailable id)
  | some holder =>
    match ← read holder id with
    | some v => return v
    | none => fail (.unavailable id)

end Run

end Dataflow
