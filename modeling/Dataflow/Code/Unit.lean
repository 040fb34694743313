import Dataflow.Code.Checksum
import Dataflow.Code.Constant
import Dataflow.Code.Instruction

/-!
# Compiled units

A unit is a constant pool and a flat list of instructions, with the checksum of the source it was
compiled from.

* `Code`: units;
* `Code.listing`: a unit as text, function bodies indented.
-/

namespace Dataflow

/-- A compiled unit. -/
structure Code where
  checksum : Checksum
  constants : List Constant
  instructions : List Instruction
  deriving DecidableEq, Repr, Inhabited

namespace Code

/-- Whether two units have the same constants and instructions. -/
def sameContent (a b : Code) : Bool :=
  decide (a.constants = b.constants ∧ a.instructions = b.instructions)

/-- The unit with another checksum. -/
def withChecksum (c : Code) (checksum : Checksum) : Code := { c with checksum }

/-- Blanks. -/
def blanks (n : Nat) : String := String.ofList (List.replicate n ' ')

/-- A number at the right end of four columns. -/
def address (n : Nat) : String := blanks (4 - (toString n).length) ++ toString n

/-- The lines of instructions, the first at address `n` and inside `depth` function bodies. -/
def instructionLines (n depth : Nat) : List Instruction → List String
  | [] => []
  | i :: is =>
    let here := if i = .leave then depth - 1 else depth
    let next := match i with
      | .enter _ => here + 1
      | _ => here
    ("    " ++ address n ++ "  " ++ blanks (2 * here) ++ i.listing) ::
      instructionLines (n + 1) next is

/-- The lines of constants, the first at position `n`. -/
def constantLines (n : Nat) : List Constant → List String
  | [] => []
  | c :: cs => ("    [" ++ toString n ++ "] = " ++ c.listing) :: constantLines (n + 1) cs

/-- A unit as text. -/
def listing (c : Code) : String :=
  let pool :=
    if c.constants.isEmpty then ["  constants: []"]
    else "  constants: [" :: constantLines 0 c.constants ++ ["  ]"]
  String.intercalate "\n"
    (["Bytecode \x7b", "  checksum: " ++ c.checksum.hex] ++ pool ++ ["  instructions:"]
      ++ instructionLines 0 0 c.instructions ++ ["\x7d"])

end Code

end Dataflow
