import Dataflow.Graph.Peel
import Dataflow.Run.Library
import Dataflow.Run.Machine

/-!
# Evaluation

The blocks of a graph run in the order in which they can be peeled, and the value of the last block
is the value of the graph. Blocks that do not wait for each other may run in any order; the lowest
comes first here, whatever schedule is set.

Calls and loads are answered by `answer`. Its first argument bounds how deeply requests may be
nested; the depth of calls, which the host limits, counts only calls of closures.

* `Program`: a unit that is ready to run;
* `Host`: what runs have from their surroundings;
* `Script.run`, `Block.run`, `Graph.run`: scripts, blocks and graphs, given how requests are
  answered;
* `Host.answer`: answers requests;
* `Host.run`, `Host.perform`: run programs and scripts from outside.
-/

namespace Dataflow

/-- A unit that is ready to run. -/
structure Program where
  code : Code
  graph : Graph
  environment : Environment
  deriving Inhabited

/-- The program of a unit, if it is well formed. -/
def Program.ofCode (code : Code) (environment : Environment) : Except RunError Program :=
  match Graph.build code.instructions with
  | .ok graph => .ok ⟨code, graph, environment⟩
  | .error e => .error (.malformed (.graph e))

/-- What a program shares between its functions. -/
def Program.image (p : Program) : Image := ⟨p.code.constants.toArray, p.environment⟩

/-- What a loader says about a name. -/
inductive Loaded where
  | value (v : Value)
  | failed (message : String)
  /-- The request is never answered. -/
  | dropped
  /-- The value is that of a program, whose output may be left out. -/
  | program (p : Program) (quiet : Bool)

/-- How the ready blocks of a graph are run. -/
inductive Schedule where
  /-- One after the other, the lowest first. -/
  | sequential
  /-- Side by side. -/
  | parallel
  deriving DecidableEq, Repr, Inhabited

/-- What is set for a run. -/
structure RunOptions where
  /-- How deeply calls of closures may be nested. -/
  maxDepth : Nat
  schedule : Schedule
  deriving DecidableEq, Repr, Inhabited

/-- What runs have from their surroundings. -/
structure Host where
  options : RunOptions
  /-- What the functions of the host do. They see the options of the run. -/
  functions : Array (RunOptions → List Value → Script Value)
  /-- What is loaded under a name, if anything can be loaded. -/
  loader? : Option (String → Loaded)

/-- How deeply calls of closures may be nested. -/
def Host.maxDepth (h : Host) : Nat := h.options.maxDepth

/-! ## Scripts, blocks and graphs -/

/-- Runs a script at a depth of calls. -/
def Script.run {α : Type} (answer : Request → Run Value) (level : Nat) : Script α → Run α
  | done a => pure a
  | fail e => Run.fail e
  | ask r next => do (next (← (answer r).attempt)).run answer level
  | print text next => do
    Run.print text
    next.run answer level
  | mint next => do (next (← Run.fresh)).run answer level
  | depth next => (next level).run answer level

/-- Where instructions run. -/
structure Frame where
  unit : Nat
  scope : Nat
  /-- How many calls of closures are open. -/
  depth : Nat

namespace Frame

/-- The image of a frame. -/
def image (f : Frame) : Run Image := return (← get).images.getD f.unit default

/-- The value under a number. -/
def find (f : Frame) (id : ValueId) : Run Value := do
  if id.isBuiltin then
    match (← f.image).environment.get? id with
    | some v => return v
    | none => Run.fail (.unavailable id)
  else Run.find f.scope id

/-- The value of a constant. -/
def constant (f : Frame) (id : ConstantId) : Run Value := do
  match (← f.image).constants[id.toNat]? with
  | none => Run.malformed (.missingConstant id)
  | some c =>
    match c.value? with
    | some v => return v
    | none => Run.malformed (.undecodable id)

/-- The text of a constant that names a field. -/
def fieldName (f : Frame) (id : ConstantId) : Run String := do
  match ← f.constant id with
  | .str name => return name
  | _ => Run.fail (.fieldNotText id)

end Frame

/-- Runs the instructions of the block for `id` after the given arguments, the latest of them
first. -/
def runSteps (answer : Request → Run Value) (f : Frame) (id : ValueId) :
    List Value → List Instruction → Run Value
  | args, .argument a :: rest => do runSteps answer f id ((← f.find a) :: args) rest
  | args, .call callee :: _ => do
    (Script.apply (← f.find callee) args.reverse).run answer f.depth
  | _, .constant c :: _ => f.constant c
  | _, .field value name form :: _ => do
    let receiver ← f.find value
    (receiver.select (← f.fieldName name) form).run answer f.depth
  | _, .copy a :: _ => f.find a
  | _, _ => Run.malformed (.noValue id)

/-- Runs a block and keeps its value. -/
def Block.run (answer : Request → Run Value) (f : Frame) : Block → Run Unit
  | .function id body => Run.put f.scope id (.declared body f.unit id)
  | .steps id instructions => do Run.write f.scope id (← runSteps answer f id [] instructions)

/-- Writes arguments under consecutive numbers. -/
def bindArguments (scope : Nat) (id : ValueId) : List Value → Run Unit
  | [] => pure ()
  | v :: vs => do
    Run.write scope id v
    bindArguments scope (id + 1) vs

/-- Runs the blocks of a graph in a new activation, inside that of its declaration. -/
def Graph.run (answer : Request → Run Value) (g : Graph) (unit depth : Nat) (parent : Option Nat)
    (args : List Value) : Run Value := do
  match g.result? with
  | none => Run.fail .emptyBody
  | some result =>
    let scope ← Run.enter parent g.first g.slotCount
    bindArguments scope g.first args
    let blocks := g.blocks.toArray
    let summary ← Peel.visit blocks.size g.dependents fun i =>
      match blocks[i]? with
      | some b => b.run answer ⟨unit, scope, depth⟩
      | none => pure ()
    unless summary.isComplete do Run.fail (.cycle summary.missing.length)
    match ← Run.read scope result with
    | some v => return v
    | none => Run.fail (.unavailable result)

/-- Runs a program from the start. -/
def Program.run (answer : Request → Run Value) (p : Program) : Run Value := do
  let unit ← Run.addImage p.image
  p.graph.run answer unit 0 none []

/-! ## Requests -/

namespace Host

/-- What a function of the host does. -/
def function (h : Host) (number : Nat) (args : List Value) : Script Value :=
  h.functions.getD number (fun _ _ => .done .unit) h.options args

/-- What a native function does. -/
def scriptOf (h : Host) (n : Native) (args : List Value) : Script Value :=
  match n.body with
  | .builtin b => b.script args
  | .host number => h.function number args

/-- Answers a request at a depth of calls. -/
def answer (h : Host) : Nat → Nat → Request → Run Value
  | 0, _, _ => throw .exhausted
  | fuel + 1, depth, .call (.native n) args => do
    Run.ofExcept (n.signature.check n.name args)
    (h.scriptOf n args).run (h.answer fuel depth) depth
  | fuel + 1, depth, .call (.method identity receiver m) args => do
    Run.ofExcept (m.signature.check (Function.method identity receiver m).name args)
    (m.script receiver args).run (h.answer fuel depth) depth
  | fuel + 1, depth, .call (.closure identity c) args => do
    let count := c.graph.params.toNat
    unless args.length = count do
      Run.fail (.wrongCount (Function.closure identity c).name (toString count) args.length)
    if h.maxDepth < depth + 1 then Run.fail (.tooDeep (depth + 1) h.maxDepth)
    c.graph.run (h.answer fuel (depth + 1)) c.unit (depth + 1) (some c.scope) args
  | fuel + 1, _, .load target =>
    match h.loader? with
    | none => Run.fail (.noLoader target)
    | some loader => do
      Run.noteLoad target
      match loader target with
      | .value v => return v
      | .failed message => Run.fail (.loadFailed target message)
      | .dropped => Run.fail (.loadFailed target "loader dropped the request")
      | .program p quiet =>
        let run := p.run (h.answer fuel 0)
        try if quiet then Run.quietly run else run
        catch
          | .error e => Run.fail (.loadFailed target e.message)
          | .exhausted => throw .exhausted

/-- How deeply requests may be nested when nothing else is said. -/
def patience : Nat := Nat.pow 2 62

/-- Runs a script from outside any call. -/
def perform {α : Type} (h : Host) (s : Script α) : Run α := s.run (h.answer patience 0) 0

/-- Runs a program from outside any call. -/
def run (h : Host) (p : Program) : Run Value := p.run (h.answer patience 0)

end Host

end Dataflow
