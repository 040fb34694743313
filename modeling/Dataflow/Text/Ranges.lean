/-!
# Sets of characters

A set of code points is given by the sorted list of the points at which membership changes, from
outside to inside at the first of them.

* `inRanges`: membership in such a set.
-/

namespace Dataflow

/-- Whether `n` lies in the set whose membership changes at the given points: it does if an odd
number of them are not above it. -/
def inRanges (bounds : List Nat) (n : Nat) : Bool :=
  bounds.foldl (fun inside b => if b ≤ n then !inside else inside) false

end Dataflow
