import Dataflow.Graph.Basic

/-!
# Peeling

A node is ready when every node it waits for has been visited; visiting a node may make others
ready. Of the ready nodes the lowest comes first. What is never ready lies on a cycle or behind one.

* `Peel.order`: the nodes in the order of their visits;
* `Peel.visit`: visits the nodes in that order until a visit fails;
* `Peel.Summary`: which nodes were visited.
-/

namespace Dataflow

namespace Peel

/-- For every node how often others list it as waiting. -/
def degrees (count : Nat) (dependents : List (List Nat)) : Array Nat :=
  dependents.flatten.foldl (fun ds i => ds.modify i (· + 1)) (Array.replicate count 0)

/-- Inserts a node into a sorted list. -/
def insert (i : Nat) : List Nat → List Nat
  | [] => [i]
  | j :: js => if i ≤ j then i :: j :: js else j :: insert i js

/-- A node that was waited for has been visited: the node `i` waits for one less. -/
def release (s : Array Nat × List Nat) (i : Nat) : Array Nat × List Nat :=
  let (ds, ready) := s
  match ds[i]? with
  | none => (ds, ready)
  | some k =>
    let ds := ds.setIfInBounds i (k - 1)
    if k - 1 = 0 then (ds, insert i ready) else (ds, ready)

/-- At most `n` further visits, with the given counts and ready nodes. -/
def orderFrom (dependents : Array (List Nat)) : Nat → Array Nat → List Nat → List Nat
  | 0, _, _ => []
  | _ + 1, _, [] => []
  | n + 1, ds, i :: ready =>
    let (ds, ready) := (dependents.getD i []).foldl release (ds, ready)
    i :: orderFrom dependents n ds ready

/-- The nodes, of `count` many, in the order of their visits. -/
def order (count : Nat) (dependents : List (List Nat)) : List Nat :=
  let ds := degrees count dependents
  let ready := (List.range count).filter fun i => ds.getD i 0 = 0
  orderFrom dependents.toArray count ds ready

/-- Which of `count` nodes were visited. -/
structure Summary where
  count : Nat
  visited : List Nat

namespace Summary

/-- For every node whether it was visited. -/
def marks (s : Summary) : Array Bool :=
  s.visited.foldl (fun done i => done.setIfInBounds i true) (Array.replicate s.count false)

/-- Whether a node was visited. -/
def includes (s : Summary) (i : Nat) : Bool := s.marks.getD i false

/-- The nodes that were not visited. -/
def missing (s : Summary) : List Nat :=
  let done := s.marks
  (List.range s.count).filter fun i => !done.getD i false

/-- How many nodes were visited. -/
def size (s : Summary) : Nat := s.visited.length

/-- Whether every node was visited. -/
def isComplete (s : Summary) : Bool := s.missing.isEmpty

end Summary

/-- Visits nodes in order until a visit fails. -/
def visit {m : Type → Type} [Monad m] (count : Nat) (dependents : List (List Nat))
    (f : Nat → m Unit) : m Summary := do
  let visits := order count dependents
  visits.forM f
  return ⟨count, visits⟩

end Peel

end Dataflow
