import Dataflow.Run.Field

/-!
# Probes

Functions that a host can offer in order to look at a run from the inside.

* `Probe`: the functions;
* `Probe.script`: what they do.
-/

namespace Dataflow

/-- A function that looks at a run. -/
inductive Probe where
  /-- The arguments as a tuple. -/
  | args
  /-- The number of arguments. -/
  | count
  /-- The first argument. -/
  | first
  /-- Calls the first argument with the others. -/
  | call
  /-- The text of the first argument. -/
  | text
  /-- Whether the first two arguments are equal. -/
  | equal
  /-- The field of the first argument that the second one names. -/
  | field
  /-- The depth of calls. -/
  | depth
  /-- An error. -/
  | fail
  deriving DecidableEq, Repr, Inhabited

/-- What a probe does with its arguments; a missing one is unit. -/
def Probe.script (p : Probe) (args : List Value) : Script Value :=
  let arg (i : Nat) : Value := args.getD i .unit
  match p with
  | .args => return .tuple args
  | count => return .int (Int64.ofNat args.length)
  | first => return arg 0
  | call => Script.apply (arg 0) (args.drop 1)
  | text => return .str (← (arg 0).toText)
  | equal => return .bool (← (arg 0).equals (arg 1))
  | field =>
    match arg 1 with
    | .str name => (arg 0).select name .member
    | other => .fail (.wrongKind "field" 1 .string other.type)
  | depth => return .int (Int64.ofNat (← Script.callDepth))
  | fail => Script.fail .divisionByZero

end Dataflow
