import Dataflow.Code.Constant
import Dataflow.Compile.Error

/-!
# Constant pools

While a unit is compiled, its constants are kept with their positions; at the end they are laid out
in order.

* `Pool.insert`: gives a constant a position;
* `Pool.intern`: the position of a constant, a new one if it has none;
* `Pool.layout`: the constants in order.
-/

namespace Dataflow

/-- Constants with their positions, the latest first; no constant is listed twice. -/
structure Pool where
  entries : List (Constant × ConstantId)
  deriving Repr, Inhabited

namespace Pool

/-- No constants. -/
def empty : Pool := ⟨[]⟩

/-- How many constants there are. -/
def size (p : Pool) : Nat := p.entries.length

/-- The position of a constant. -/
def find? (p : Pool) (c : Constant) : Option ConstantId :=
  (p.entries.find? fun e => e.1.same c).map (·.2)

/-- Gives a constant a position in place of the one it had. -/
def insert (p : Pool) (c : Constant) (id : ConstantId) : Pool :=
  ⟨(c, id) :: p.entries.filter fun e => e.1 != c⟩

/-- The position of a constant; a new constant comes behind all others. -/
def intern (p : Pool) (c : Constant) : ConstantId × Pool :=
  match p.find? c with
  | some id => (id, p)
  | none =>
    let id := UInt32.ofNat p.size
    (id, ⟨(c, id) :: p.entries⟩)

/-- For every position below the number of constants, the constant that has it. -/
def slots (p : Pool) : Array (Option Constant) :=
  p.entries.foldl (fun slots (c, id) => slots.setIfInBounds id.toNat (some c))
    (Array.replicate p.size none)

/-- The constants in order; every position below their number has to be taken. -/
def layout (p : Pool) : Except CompileError.Cause (List Constant) :=
  p.slots.toList.zipIdx.mapM fun (slot, index) =>
    match slot with
    | some c => .ok c
    | none => .error (.missingConstant index)

end Pool

end Dataflow
