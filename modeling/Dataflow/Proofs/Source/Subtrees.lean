import Dataflow.Source.Node

/-!
# The trees in a tree

What is asked of every part of a program is asked of the trees in its tree.

* `Node.subtrees`: a tree and all trees in it;
* `Node.mem_subtreesAll`: the trees in some trees.
-/

namespace Dataflow

namespace Node

mutual

/-- A tree and all trees in it. -/
def subtrees : Node → List Node
  | .literal span l => [.literal span l]
  | .ident span name => [.ident span name]
  | .assign span names value => .assign span names value :: value.subtrees
  | .call span callee args => .call span callee args :: (callee.subtrees ++ subtreesAll args)
  | .select span value field form => .select span value field form :: value.subtrees
  | .function span name params body => .function span name params body :: body.subtrees
  | .list span items => .list span items :: subtreesAll items

/-- The trees in some trees. -/
def subtreesAll : List Node → List Node
  | [] => []
  | item :: items => item.subtrees ++ subtreesAll items

end

theorem mem_subtreesAll {t : Node} {items : List Node} :
    t ∈ subtreesAll items ↔ ∃ item ∈ items, t ∈ item.subtrees := by
  induction items with
  | nil => simp [subtreesAll]
  | cons item items ih => simp [subtreesAll, ih]

theorem self_mem_subtrees (node : Node) : node ∈ node.subtrees := by
  cases node <;> simp [subtrees]

end Node

end Dataflow
