import Dataflow.Graph.Basic

/-!
# Graphs from instructions

The instructions of a unit are taken one by one. Every open function body has a draft of its level;
closing the body turns the draft into a block of the level around it.

Functions are numbered before all other values of their level, so they may be read before they are
declared. A function block does not wait for the sibling functions it reads, since it only keeps the
scope. But calling it may run them, so what it reads through them counts as its own: see
`Draft.propagate`.

Numbers of values have 32 bits. Sums and differences of them are checked: building goes no further
where one leaves the range. Only the number of parameters is taken as it comes.

* `GraphError`: why there is no graph;
* `ValueId.plus`, `ValueId.minus`: checked arithmetic;
* `Draft`: a level under construction;
* `Graph.build`: the graph of a unit.
-/

namespace Dataflow

/-- Why there is no graph: how a list of instructions is not well formed, or that building stops. -/
inductive GraphError where
  /-- The end of a function at `position` has no start. -/
  | unopened (position : Nat)
  /-- The function that starts at `position` has no end. -/
  | unclosed (position : Nat)
  /-- Arguments before `position` belong to no call. -/
  | strayArguments (position : Nat)
  /-- A value is read at `position` before it is produced. -/
  | tooEarly (position : Nat) (id : ValueId)
  /-- A number of a value leaves its range. This is no answer to the instructions: the program
  itself stops there. -/
  | overflow
  deriving DecidableEq, Repr, Inhabited

/-- The wording of an error. -/
def GraphError.message : GraphError → String
  | unopened position => s!"PopFunction at {position} has no matching PushFunction"
  | unclosed position => s!"function opened at {position} is never closed"
  | strayArguments position => s!"arguments pushed before {position} are not consumed by a call"
  | tooEarly position id =>
    s!"instruction at {position} reads " ++ id.text ++ " before it is produced"
  | overflow => "a value number leaves its range"

/-- The sum of two numbers, if it is in their range. -/
def ValueId.plus (a b : ValueId) : Except GraphError ValueId :=
  if (a + b).toInt = a.toInt + b.toInt then .ok (a + b) else .error .overflow

/-- The difference of two numbers, if it is in their range. -/
def ValueId.minus (a b : ValueId) : Except GraphError ValueId :=
  if (a - b).toInt = a.toInt - b.toInt then .ok (a - b) else .error .overflow

/-- Adds an element at the end, unless it is there already. -/
def pushNew {α : Type} [BEq α] (xs : Array α) (x : α) : Array α :=
  if xs.contains x then xs else xs.push x

/-- How many functions start directly in the scope whose instructions follow, `depth` bodies
deep. -/
def countFunctions (depth : Nat) : List Instruction → Nat
  | [] => 0
  | .enter _ :: is => (if depth = 0 then 1 else 0) + countFunctions (depth + 1) is
  | .leave :: is => if depth = 0 then 0 else countFunctions (depth - 1) is
  | .argument _ :: is | .call _ :: is | .constant _ :: is | .field .. :: is | .copy _ :: is =>
    countFunctions depth is

/-- A level under construction. -/
structure Draft where
  first : ValueId
  params : UInt32
  /-- Where the function was opened. -/
  openedAt : Nat
  /-- How many functions the level declares, now or later. -/
  functionCount : Nat
  functions : Array Block
  values : Array Block
  /-- For every block the blocks that wait for it. -/
  dependents : Array (Array Nat)
  /-- For every function the sibling functions it reads. -/
  links : Array (Array Nat)
  /-- For every function the other blocks it reads. -/
  captures : Array (Array Nat)
  /-- What is read from the levels around this one. -/
  escaped : Array ValueId
  /-- Arguments that wait for their call. -/
  pending : Array Instruction

namespace Draft

/-- The level that starts at a value number, with the instructions that follow. -/
def start (first : ValueId) (params : UInt32) (openedAt : Nat) (rest : List Instruction) : Draft :=
  let n := countFunctions 0 rest
  { first, params, openedAt, functionCount := n, functions := #[], values := #[],
    dependents := Array.replicate n #[], links := Array.replicate n #[],
    captures := Array.replicate n #[], escaped := #[], pending := #[] }

/-- The first value number after the parameters. No level is opened where this sum leaves the range:
see `Draft.enter`. -/
def base (d : Draft) : ValueId := d.first + d.params.toInt32

/-- The index of the next value block. -/
def nextIndex (d : Draft) : Nat := d.functionCount + d.values.size

/-- The number of the next value. Nothing gets it where this sum leaves the range: see `Draft.enter`
and `Draft.takeValue`. -/
def nextId (d : Draft) : ValueId := d.base + Int32.ofNat d.nextIndex

/-- Where a value comes from: it is always there, or made by a block of this level, or by a level
around it. -/
inductive Origin where
  | ambient
  | block (index : Nat)
  | outer

/-- Where a value comes from. Only values that are not functions can be read too early. -/
def origin (d : Draft) (id : ValueId) (position : Nat) : Except GraphError Origin :=
  if id < 0 ∨ (d.first ≤ id ∧ id < d.base) then .ok .ambient
  else if id < d.first then .ok .outer
  else do
    let index := (← id.minus d.base).toInt
    if 0 ≤ index ∧ index < d.nextIndex then .ok (.block index.toNat)
    else .error (.tooEarly position id)

/-- Block `dst` waits for block `src`. -/
def addEdge (d : Draft) (src dst : Nat) : Draft :=
  { d with dependents := d.dependents.modify src (pushNew · dst) }

/-- Block `dst` reads a value. -/
def depend (d : Draft) (id : ValueId) (dst position : Nat) : Except GraphError Draft := do
  match ← d.origin id position with
  | .ambient => return d
  | .outer => return { d with escaped := pushNew d.escaped id }
  | .block src =>
    if src = dst then return d
    else if dst < d.functionCount then
      if src < d.functionCount then return { d with links := d.links.modify dst (pushNew · src) }
      else return { d with captures := d.captures.modify dst (pushNew · src) }.addEdge src dst
    else return d.addEdge src dst

/-- Block `dst` reads values. -/
def dependAll (d : Draft) (dst position : Nat) : List ValueId → Except GraphError Draft
  | [] => .ok d
  | id :: ids => do (← d.depend id dst position).dependAll dst position ids

/-- The next value block. -/
def addValue (d : Draft) (instructions : List Instruction) : Draft :=
  { d with
    values := d.values.push (.steps d.nextId instructions)
    dependents := d.dependents.push #[]
    pending := #[] }

/-- The next value block, if there is a number for it. -/
def takeValue (d : Draft) (instructions : List Instruction) : Except GraphError Draft := do
  let _ ← d.base.plus (.ofNat d.nextIndex)
  return d.addValue instructions

/-- The level of a function that starts here, if there are numbers for the function, for what it
starts with and for what comes after its parameters. -/
def enter (d : Draft) (params : UInt32) (position : Nat) (rest : List Instruction) :
    Except GraphError Draft := do
  let _ ← d.base.plus (.ofNat d.functions.size)
  let first ← d.base.plus (.ofNat d.nextIndex)
  let _ ← first.plus params.toInt32
  return .start first params position rest

/-! ## What functions read through their siblings -/

/-- A walk along sibling links. -/
structure Walk where
  /-- The functions that have been reached, in order. -/
  reached : Array Nat
  /-- The functions whose links are still to be followed. -/
  todo : List Nat
  /-- For every function whether it was met before. -/
  seen : Array Bool

/-- Reaches a function, unless it was met before. It is the next one to be followed. -/
def Walk.meet (w : Walk) (function : Nat) : Walk :=
  if w.seen.getD function true then w
  else ⟨w.reached.push function, function :: w.todo, w.seen.setIfInBounds function true⟩

/-- Follows links from the functions to do, in at most `n` steps. -/
def follow (links : Array (Array Nat)) : Nat → Walk → Array Nat
  | 0, w => w.reached
  | n + 1, w =>
    match w.todo with
    | [] => w.reached
    | current :: todo =>
      follow links n ((links.getD current #[]).foldl Walk.meet { w with todo })

/-- The functions that can be reached from a function through sibling links, itself excluded. -/
def reachable (d : Draft) (function : Nat) : Array Nat :=
  follow d.links (d.functionCount + 1)
    ⟨#[], [function], (Array.replicate d.functionCount false).setIfInBounds function true⟩

/-- A function waits for what the functions it reaches have captured, and those that read it wait
for the functions it reaches. -/
def propagateFrom (readers : List Nat) (function : Nat) (d : Draft) (sibling : Nat) : Draft :=
  let captured := (d.captures.getD sibling #[]).toList
  let d := captured.foldl (fun d value => d.addEdge value function) d
  readers.foldl (fun d reader => d.addEdge sibling reader) d

/-- Gives every function what the siblings it reaches depend on. -/
def propagate (d : Draft) : Draft :=
  let readers := d.dependents
  (List.range d.functionCount).foldl (fun d function =>
    (d.reachable function).foldl (propagateFrom (readers.getD function #[]).toList function) d) d

/-- The finished level. -/
def finish (d : Draft) : Graph :=
  let d := d.propagate
  ⟨d.first, d.params, (d.functions ++ d.values).toList, d.dependents.toList.map Array.toList⟩

/-- A function of this level is complete: its body, and what it reads from around it. -/
def addFunction (d : Draft) (body : Draft) : Except GraphError Draft := do
  let index := d.functions.size
  let id := d.base + Int32.ofNat index
  let d ← d.dependAll index body.openedAt body.escaped.toList
  return { d with functions := d.functions.push (.function id body.finish) }

end Draft

namespace Graph

/-- Takes the instructions from `position` on, inside the level `d` and the levels around it. -/
def buildFrom (position : Nat) (d : Draft) (around : List Draft) :
    List Instruction → Except GraphError Graph
  | [] =>
    if !d.pending.isEmpty then .error (.strayArguments position)
    else if !around.isEmpty then .error (.unclosed d.openedAt)
    else .ok d.finish
  | .leave :: is =>
    if !d.pending.isEmpty then .error (.strayArguments position)
    else
      match around with
      | [] => .error (.unopened position)
      | parent :: around => do
        let parent ← parent.addFunction d
        buildFrom (position + 1) parent around is
  | .enter params :: is =>
    if !d.pending.isEmpty then .error (.strayArguments position)
    else do
      let body ← d.enter params position is
      buildFrom (position + 1) body (d :: around) is
  | .argument id :: is => do
    let d ← d.depend id d.nextIndex position
    buildFrom (position + 1) { d with pending := d.pending.push (.argument id) } around is
  | .call id :: is => do
    let d ← d.depend id d.nextIndex position
    let d ← d.takeValue (d.pending.push (.call id)).toList
    buildFrom (position + 1) d around is
  | i :: is =>
    if !d.pending.isEmpty then .error (.strayArguments position)
    else do
      let d ← d.dependAll d.nextIndex position i.operand?.toList
      let d ← d.takeValue [i]
      buildFrom (position + 1) d around is

/-- The graph of a list of instructions. -/
def build (instructions : List Instruction) : Except GraphError Graph :=
  buildFrom 0 (.start 0 0 0 instructions) [] instructions

end Graph

end Dataflow
