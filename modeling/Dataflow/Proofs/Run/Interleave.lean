import Dataflow.Proofs.Run.Memory

/-!
# Interleaved runs

Blocks that do not wait for each other may run at the same time. What is under way is a tree: a
script that waits for an answer has the work on that answer below it, and a graph has the work of
its blocks below it. A step picks any place of the tree that can go on and does one thing there; the
machine is shared by all of them.

When a block fails, no further block of its graph starts; those under way go on, and then the graph
fails with the first failure.

* `Op`: what a step can do to the machine;
* `Work`, `Job`: what is under way;
* `Job.Offers`, `Work.Offers`: what can be done next, and how it goes on with the answer;
* `Work.Step`: one step of an interleaved run.
-/

namespace Dataflow

/-- One thing that is done to a machine, by the type of its answer. -/
inductive Op : Type → Type where
  | idle : Op Unit
  /-- Reads an operand. -/
  | find (f : Frame) (id : ValueId) : Op Value
  | constant (f : Frame) (id : ConstantId) : Op Value
  | fieldName (f : Frame) (id : ConstantId) : Op String
  | mint : Op Nat
  | print (text : String) : Op Unit
  | note (target : String) : Op Unit
  | addImage (image : Image) : Op Nat
  /-- Makes the activation of a graph and writes its arguments. -/
  | enter (g : Graph) (unit depth : Nat) (parent : Option Nat) (args : List Value) : Op Frame
  /-- Keeps the value of a block. -/
  | put (scope : Nat) (id : ValueId) (s : Slot) : Op Unit
  /-- Reads the value of a graph. -/
  | result (scope : Nat) (id : ValueId) : Op Value

/-- What is done. -/
def Op.run {α : Type} : Op α → Run α
  | idle => pure ()
  | find f id => f.find id
  | constant f id => f.constant id
  | fieldName f id => f.fieldName id
  | mint => Run.fresh
  | print text => Run.print text
  | note target => Run.noteLoad target
  | addImage image => Run.addImage image
  | enter g unit depth parent args => do
    let scope ← Run.enter parent g.first g.slotCount
    bindArguments scope g.first args
    return ⟨unit, scope, depth⟩
  | put scope id s => Run.put scope id s
  | result scope id => do
    match ← Run.read scope id with
    | some v => return v
    | none => Run.fail (.unavailable id)

mutual

/-- Something under way that is to have a value. -/
inductive Work where
  | script (depth : Nat) (s : Script Value)
  /-- A script that waits for an answer. -/
  | bind (depth : Nat) (inner : Work) (next : Except RunError Value → Script Value)
  /-- A program before it has its image. -/
  | boot (p : Program)
  /-- A graph before it has its activation. -/
  | call (g : Graph) (unit depth : Nat) (parent : Option Nat) (args : List Value)
  /-- A graph with what its blocks are doing, and the first failure. -/
  | level (g : Graph) (f : Frame) (jobs : Nat → Job) (failure : Option RunError)
  /-- A program that is being loaded, perhaps without its output. -/
  | load (target : String) (quiet : Bool) (inner : Work)

/-- What a block is doing. -/
inductive Job where
  | waiting
  /-- Has read arguments, the latest first; the remaining instructions follow. -/
  | reading (args : List Value) (rest : List Instruction)
  /-- Has read the value whose field is selected. -/
  | selecting (receiver : Value) (name : ConstantId) (form : Form)
  | working (w : Work)
  /-- Has something to be kept. -/
  | storing (s : Slot)
  | finished
  | failed (e : RunError)

end

namespace Job

/-- Whether the block has started and not ended yet. -/
def isRunning : Job → Bool
  | reading .. | selecting .. | working _ | storing _ => true
  | waiting | finished | failed _ => false

/-- Whether the value of the block is there. -/
def isFinished : Job → Bool
  | finished => true
  | _ => false

/-- Why the block has failed. -/
def error? : Job → Option RunError
  | failed e => some e
  | _ => none

/-- Goes on with an answer, or fails. -/
def after {α : Type} (next : α → Job) : Except RunError α → Job
  | .ok a => next a
  | .error e => failed e

end Job

namespace Work

/-- Something that has failed. -/
def fail (e : RunError) : Work := script 0 (.fail e)

/-- Goes on with an answer, or fails. -/
def after {α : Type} (next : α → Work) : Except RunError α → Work
  | .ok a => next a
  | .error e => fail e

end Work

/-- What a block does when it starts. -/
def Block.start (f : Frame) : Block → Job
  | .function id body => .storing (.declared body f.unit id)
  | .steps _ instructions => .reading [] instructions

/-- Whether all blocks that a block waits for have ended. -/
def Graph.Free (g : Graph) (jobs : Nat → Job) (i : Nat) : Prop :=
  ∀ j, i ∈ g.waiting j → jobs j = .finished

/-- The blocks whose values are not there. -/
def Graph.unfinished (g : Graph) (jobs : Nat → Job) : List Nat :=
  (List.range g.blocks.length).filter fun i => !(jobs i).isFinished

/-- Instructions that make no value. -/
def Stuck : List Instruction → Prop
  | [] | .enter _ :: _ | .leave :: _ => True
  | _ => False

namespace Host

/-- What a call comes to. -/
def called (h : Host) (depth : Nat) (f : Function) (args : List Value) : Work :=
  match f with
  | .native n =>
    match n.signature.check n.name args with
    | .ok _ => .script depth (h.scriptOf n args)
    | .error e => .fail e
  | .method identity receiver m =>
    match m.signature.check (Function.method identity receiver m).name args with
    | .ok _ => .script depth (m.script receiver args)
    | .error e => .fail e
  | .closure identity c =>
    if args.length = c.graph.params.toNat then
      if h.maxDepth < depth + 1 then .fail (.tooDeep (depth + 1) h.maxDepth)
      else .call c.graph c.unit (depth + 1) (some c.scope) args
    else .fail (.wrongCount (Function.closure identity c).name (toString c.graph.params.toNat)
      args.length)

/-- What a load comes to. -/
def loaded (target : String) : Loaded → Work
  | .value v => .script 0 (.done v)
  | .failed message => .fail (.loadFailed target message)
  | .dropped => .fail (.loadFailed target "loader dropped the request")
  | .program p quiet => .load target quiet (.boot p)

end Host

/-- What a block can do next, other than the work below it. -/
inductive Job.Offers (f : Frame) (id : ValueId) :
    Job → {α : Type} → Op α → (Except RunError α → Job) → Prop where
  | argument (args : List Value) (a : ValueId) (rest : List Instruction) :
    Offers f id (.reading args (.argument a :: rest)) (.find f a)
      (Job.after fun v => .reading (v :: args) rest)
  | call (args : List Value) (a : ValueId) (rest : List Instruction) :
    Offers f id (.reading args (.call a :: rest)) (.find f a)
      (Job.after fun v => .working (.script f.depth (Script.apply v args.reverse)))
  | constant (args : List Value) (c : ConstantId) (rest : List Instruction) :
    Offers f id (.reading args (.constant c :: rest)) (.constant f c)
      (Job.after fun v => .storing (.keep f.scope v))
  | field (args : List Value) (a : ValueId) (name : ConstantId) (form : Form)
    (rest : List Instruction) :
    Offers f id (.reading args (.field a name form :: rest)) (.find f a)
      (Job.after fun v => .selecting v name form)
  | name (v : Value) (name : ConstantId) (form : Form) :
    Offers f id (.selecting v name form) (.fieldName f name)
      (Job.after fun text => .working (.script f.depth (v.select text form)))
  | copy (args : List Value) (a : ValueId) (rest : List Instruction) :
    Offers f id (.reading args (.copy a :: rest)) (.find f a)
      (Job.after fun v => .storing (.keep f.scope v))
  | stuck (args : List Value) {rest : List Instruction} (h : Stuck rest) :
    Offers f id (.reading args rest) .idle fun _ => .failed (.malformed (.noValue id))
  | done (depth : Nat) (v : Value) :
    Offers f id (.working (.script depth (.done v))) .idle fun _ => .storing (.keep f.scope v)
  | fail (depth : Nat) (e : RunError) :
    Offers f id (.working (.script depth (.fail e))) .idle fun _ => .failed e
  | put (s : Slot) :
    Offers f id (.storing s) (.put f.scope id s) (Job.after fun _ => .finished)

/-- What can be done next, and how it goes on with the answer. In a `quiet` place nothing is
printed. -/
inductive Work.Offers (h : Host) :
    Bool → Work → {α : Type} → Op α → (Except RunError α → Work) → Prop where
  | print (depth : Nat) (text : String) (next : Script Value) :
    Offers h false (.script depth (.print text next)) (.print text) fun _ => .script depth next
  | mute (depth : Nat) (text : String) (next : Script Value) :
    Offers h true (.script depth (.print text next)) .idle fun _ => .script depth next
  | mint (quiet : Bool) (depth : Nat) (next : Nat → Script Value) :
    Offers h quiet (.script depth (.mint next)) .mint (Work.after fun n => .script depth (next n))
  | depth (quiet : Bool) (depth : Nat) (next : Nat → Script Value) :
    Offers h quiet (.script depth (.depth next)) .idle fun _ => .script depth (next depth)
  | ask (quiet : Bool) (depth : Nat) (f : Function) (args : List Value)
    (next : Except RunError Value → Script Value) :
    Offers h quiet (.script depth (.ask (.call f args) next)) .idle fun _ =>
      .bind depth (h.called depth f args) next
  | noLoader (quiet : Bool) (depth : Nat) (target : String)
    (next : Except RunError Value → Script Value) (hl : h.loader? = none) :
    Offers h quiet (.script depth (.ask (.load target) next)) .idle fun _ =>
      .bind depth (.fail (.noLoader target)) next
  | load (quiet : Bool) (depth : Nat) (target : String)
    (next : Except RunError Value → Script Value) {loader : String → Loaded} (hl : h.loader? = some loader) :
    Offers h quiet (.script depth (.ask (.load target) next)) (.note target) fun _ =>
      .bind depth (Host.loaded target (loader target)) next
  | answered (quiet : Bool) (depth depth' : Nat) (v : Value)
    (next : Except RunError Value → Script Value) :
    Offers h quiet (.bind depth (.script depth' (.done v)) next) .idle fun _ =>
      .script depth (next (.ok v))
  | refused (quiet : Bool) (depth depth' : Nat) (e : RunError)
    (next : Except RunError Value → Script Value) :
    Offers h quiet (.bind depth (.script depth' (.fail e)) next) .idle fun _ =>
      .script depth (next (.error e))
  | inner {quiet : Bool} {w : Work} {α : Type} {op : Op α} {k : Except RunError α → Work}
    (depth : Nat) (next : Except RunError Value → Script Value) (ho : Offers h quiet w op k) :
    Offers h quiet (.bind depth w next) op fun r => .bind depth (k r) next
  | boot (quiet : Bool) (p : Program) :
    Offers h quiet (.boot p) (.addImage p.image) (Work.after fun unit => .call p.graph unit 0 none [])
  | empty (quiet : Bool) {g : Graph} (unit depth : Nat) (parent : Option Nat) (args : List Value)
    (hr : g.result? = none) :
    Offers h quiet (.call g unit depth parent args) .idle fun _ => .fail .emptyBody
  | enter (quiet : Bool) {g : Graph} (unit depth : Nat) (parent : Option Nat) (args : List Value)
    {result : ValueId} (hr : g.result? = some result) :
    Offers h quiet (.call g unit depth parent args) (.enter g unit depth parent args)
      (Work.after fun f => .level g f (fun _ => .waiting) none)
  | start (quiet : Bool) {g : Graph} (f : Frame) {jobs : Nat → Job} {i : Nat} {b : Block}
    (hb : g.blocks[i]? = some b) (hw : jobs i = .waiting) (hf : g.Free jobs i) :
    Offers h quiet (.level g f jobs none) .idle fun _ =>
      .level g f (Function.update jobs i (b.start f)) none
  | job (quiet : Bool) {g : Graph} {f : Frame} {jobs : Nat → Job} (failure : Option RunError)
    {i : Nat} {b : Block} {α : Type} {op : Op α} {k : Except RunError α → Job}
    (hb : g.blocks[i]? = some b) (ho : (jobs i).Offers f b.id op k) :
    Offers h quiet (.level g f jobs failure) op fun r =>
      .level g f (Function.update jobs i (k r)) (failure.or (k r).error?)
  | work {quiet : Bool} (g : Graph) (f : Frame) {jobs : Nat → Job} (failure : Option RunError)
    {i : Nat} {w : Work} {α : Type} {op : Op α} {k : Except RunError α → Work}
    (hw : jobs i = .working w) (ho : Offers h quiet w op k) :
    Offers h quiet (.level g f jobs failure) op fun r =>
      .level g f (Function.update jobs i (.working (k r))) failure
  | result (quiet : Bool) {g : Graph} (f : Frame) {jobs : Nat → Job} {id : ValueId}
    (hr : g.result? = some id) (hf : g.unfinished jobs = []) :
    Offers h quiet (.level g f jobs none) (.result f.scope id)
      (Work.after fun v => .script f.depth (.done v))
  | abort (quiet : Bool) (g : Graph) (f : Frame) {jobs : Nat → Job} (e : RunError)
    (hn : ∀ i, (jobs i).isRunning = false) :
    Offers h quiet (.level g f jobs (some e)) .idle fun _ => .fail e
  | cycle (quiet : Bool) {g : Graph} (f : Frame) {jobs : Nat → Job}
    (hn : ∀ i, (jobs i).isRunning = false) (hu : g.unfinished jobs ≠ [])
    (hf : ∀ i < g.blocks.length, jobs i = .waiting → ¬ g.Free jobs i) :
    Offers h quiet (.level g f jobs none) .idle fun _ =>
      .fail (.cycle (g.unfinished jobs).length)
  | loaded (quiet quiet' : Bool) (target : String) (depth : Nat) (v : Value) :
    Offers h quiet (.load target quiet' (.script depth (.done v))) .idle fun _ =>
      .script depth (.done v)
  | unloaded (quiet quiet' : Bool) (target : String) (depth : Nat) (e : RunError) :
    Offers h quiet (.load target quiet' (.script depth (.fail e))) .idle fun _ =>
      .fail (.loadFailed target e.message)
  | loading {quiet : Bool} {w : Work} {α : Type} {op : Op α} {k : Except RunError α → Work}
    (target : String) (quiet' : Bool) (ho : Offers h (quiet || quiet') w op k) :
    Offers h quiet (.load target quiet' w) op fun r => .load target quiet' (k r)

/-- One step of an interleaved run: something that can be done next is done. -/
inductive Work.Step (h : Host) (quiet : Bool) : Work × Machine → Work × Machine → Prop where
  | intro {w : Work} {m m' : Machine} {α : Type} {op : Op α} {k : Except RunError α → Work}
    {r : Except RunError α} (ho : Work.Offers h quiet w op k)
    (hr : Run.Yields (op.run m) r m') : Work.Step h quiet (w, m) (k r, m')

/-- An interleaved run of any length. -/
abbrev Work.Steps (h : Host) (quiet : Bool) : Work × Machine → Work × Machine → Prop :=
  Relation.ReflTransGen (Work.Step h quiet)

end Dataflow
