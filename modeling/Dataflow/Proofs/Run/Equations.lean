import Mathlib
import Dataflow.Run.Evaluate

/-!
# Equations of runs

What the pieces of a run do, stated without the notation they are written in.

* `Run.bind_apply`: one run after another;
* `Host.answer_closure`, `Host.answer_program`: calls of closures and loads of programs;
* `Host.answer_congr`: what answers depend on;
* `Run.Yields`: what comes of a computation;
* `Run.okWith`, `Run.errorWith`: checks of what a computation comes to;
* `Script.run_bind`, `Script.run_request`: one script after another, and requests;
* `Frame.constant_apply`, `Frame.find_of_isBuiltin`: constants and built-in values;
* `Graph.run_eq`: the run of a graph, block by block.
-/

namespace Dataflow

namespace Run

variable {α β : Type}

theorem bind_apply (x : Run α) (f : α → Run β) (m : Machine) :
    (x >>= f) m = match x m with
      | .ok a m' => f a m'
      | .error e m' => .error e m' := by
  simp only [bind, EStateM.bind]
  cases x m <;> rfl

theorem bind_ok {x : Run α} {f : α → Run β} {m m' : Machine} {a : α} (hx : x m = .ok a m') :
    (x >>= f) m = f a m' := by
  rw [bind_apply, hx]

theorem bind_error {x : Run α} {f : α → Run β} {m m' : Machine} {e : Stop}
    (hx : x m = .error e m') : (x >>= f) m = .error e m' := by
  rw [bind_apply, hx]

@[simp]
theorem pure_apply (a : α) (m : Machine) : (pure a : Run α) m = .ok a m := rfl

@[simp]
theorem fail_apply (e : RunError) (m : Machine) : (fail e : Run α) m = .error (.error e) m := rfl

@[simp]
theorem throw_apply (e : Stop) (m : Machine) : (throw e : Run α) m = .error e m := rfl

@[simp]
theorem malformed_apply (e : Malformation) (m : Machine) :
    (malformed e : Run α) m = .error (.error (.malformed e)) m := rfl

theorem attempt_apply (x : Run α) (m : Machine) :
    x.attempt m = match x m with
      | .ok a m' => .ok (.ok a) m'
      | .error (.error e) m' => .ok (.error e) m'
      | .error .exhausted m' => .error .exhausted m' := rfl

/-- What comes of a computation that has enough steps: an answer or an error, and the machine. -/
inductive Yields : EStateM.Result Stop Machine α → Except RunError α → Machine → Prop where
  | ok (a : α) (m : Machine) : Yields (.ok a m) (.ok a) m
  | error (e : RunError) (m : Machine) : Yields (.error (.error e) m) (.error e) m

namespace Yields

variable {x : Run α} {f : α → Run β} {m m' m₁ : Machine} {a : α} {e : RunError}
  {r : Except RunError β}

theorem of_ok {x : EStateM.Result Stop Machine α} (h : x = .ok a m) : Yields x (.ok a) m :=
  h ▸ .ok a m

theorem of_error {x : EStateM.Result Stop Machine α} (h : x = .error (.error e) m) :
    Yields x (.error e) m := h ▸ .error e m

theorem unique {x : EStateM.Result Stop Machine α} {r r' : Except RunError α}
    (h : Yields x r m) (h' : Yields x r' m') : r = r' ∧ m = m' := by
  cases h <;> cases h' <;> exact ⟨rfl, rfl⟩

theorem bind_ok (hx : Yields (x m) (.ok a) m₁) (hf : Yields (f a m₁) r m') :
    Yields ((x >>= f) m) r m' := by
  rw [bind_apply]
  generalize x m = y at hx
  cases hx
  exact hf

theorem bind_error (hx : Yields (x m) (.error e) m') : Yields ((x >>= f) m) (.error e) m' := by
  rw [bind_apply]
  generalize x m = y at hx
  cases hx
  exact .error e m'

theorem attempt_bind_cases {f : Except RunError α → Run β}
    (h : Yields ((x.attempt >>= f) m) r m') :
    ∃ s m₁, Yields (x m) s m₁ ∧ Yields (f s m₁) r m' := by
  rw [bind_apply, attempt_apply] at h
  cases hx : x m with
  | ok a m₁ =>
    rw [hx] at h
    exact ⟨.ok a, m₁, .ok a m₁, h⟩
  | error e m₁ =>
    rw [hx] at h
    cases e with
    | error e => exact ⟨.error e, m₁, .error e m₁, h⟩
    | exhausted => cases h

/-- One computation after another. -/
theorem bind_cases (h : Yields ((x >>= f) m) r m') :
    (∃ a m₁, Yields (x m) (.ok a) m₁ ∧ Yields (f a m₁) r m') ∨
    ∃ e, Yields (x m) (.error e) m' ∧ r = .error e := by
  rw [bind_apply] at h
  cases hx : x m with
  | ok a m₁ =>
    rw [hx] at h
    exact .inl ⟨a, m₁, .ok a m₁, h⟩
  | error e m₁ =>
    rw [hx] at h
    cases h with
    | error e => exact .inr ⟨e, .error e _, rfl⟩

end Yields

/-! ### Looking at what a computation comes to -/

section Checks

variable {ε σ : Type}

/-- Whether a computation comes to a value, and this value and the state that it leaves pass a
check. -/
def okWith (check : α → σ → Bool) : EStateM.Result ε σ α → Bool
  | .ok a s => check a s
  | .error _ _ => false

theorem exists_of_okWith {check : α → σ → Bool} {r : EStateM.Result ε σ α}
    (h : okWith check r = true) : ∃ a s, r = .ok a s ∧ check a s = true := by
  cases r with
  | ok a s => exact ⟨a, s, rfl, h⟩
  | error e s => cases h

end Checks

end Run

theorem Value.hostEq_int_iff {v : Value} {n : Int64} : v.hostEq (.int n) = true ↔ v = .int n := by
  cases v <;> simp [hostEq]

theorem Value.hostEq_unit_iff {v : Value} : v.hostEq .unit = true ↔ v = .unit := by
  cases v <;> simp [hostEq]

open Run

namespace Script

variable {α β : Type}

@[simp]
theorem bind_eq (s : Script α) (f : α → Script β) : s >>= f = s.bind f := rfl

@[simp]
theorem pure_eq (a : α) : (pure a : Script α) = done a := rfl

/-- A script made of two runs the one after the other. -/
theorem run_bind (answer : Request → Run Value) (level : Nat) (s : Script α) (f : α → Script β) :
    (s.bind f).run answer level = s.run answer level >>= fun a => (f a).run answer level := by
  induction s with
  | done a => rfl
  | fail e => rfl
  | ask r next ih =>
    simp only [bind, run, bind_assoc, ih]
  | print text next ih =>
    simp only [bind, run, bind_assoc, ih]
  | mint next ih =>
    simp only [bind, run, bind_assoc, ih]
  | depth next ih => exact ih level

/-- A request whose error is handed on ends with its answer. -/
theorem run_request (answer : Request → Run Value) (level : Nat) (r : Request) :
    (request r).run answer level = answer r := by
  funext m
  rw [request, run, bind_apply, attempt_apply]
  cases answer r m with
  | ok v m' => rfl
  | error e m' => cases e <;> rfl

end Script

namespace Frame

theorem image_apply (f : Frame) (m : Machine) :
    f.image m = .ok (m.images.getD f.unit default) m := rfl

theorem constant_apply (f : Frame) (id : ConstantId) (m : Machine) :
    f.constant id m = match (m.images.getD f.unit default).constants[id.toNat]? with
      | none => .error (.error (.malformed (.missingConstant id))) m
      | some c => match c.value? with
        | some v => .ok v m
        | none => .error (.error (.malformed (.undecodable id))) m := by
  unfold constant
  rw [bind_ok (f.image_apply m)]
  cases (m.images.getD f.unit default).constants[id.toNat]? with
  | none => rfl
  | some c => cases h : c.value? <;> simp only [h] <;> rfl

/-- A built-in value is looked up in the environment of the frame. -/
theorem find_of_isBuiltin (f : Frame) {id : ValueId} (h : id.isBuiltin = true) (m : Machine) :
    f.find id m = match (m.images.getD f.unit default).environment.get? id with
      | some v => .ok v m
      | none => .error (.error (.unavailable id)) m := by
  unfold find
  rw [if_pos h, bind_ok (f.image_apply m)]
  cases (m.images.getD f.unit default).environment.get? id <;> rfl

end Frame

namespace Graph

/-- Runs one block of a graph. -/
def runBlock (answer : Request → Run Value) (g : Graph) (f : Frame) (i : Nat) : Run Unit :=
  match g.blocks[i]? with
  | some b => b.run answer f
  | none => pure ()

/-- Which blocks are visited when nothing fails. -/
def summary (g : Graph) : Peel.Summary :=
  ⟨g.blocks.length, Peel.order g.blocks.length g.dependents⟩

/-- The value of a graph whose blocks have been run. -/
def conclude (g : Graph) (scope : Nat) (result : ValueId) : Run Value :=
  if g.summary.isComplete then do
    match ← Run.read scope result with
    | some v => return v
    | none => Run.fail (.unavailable result)
  else Run.fail (.cycle g.summary.missing.length)

/-- The run of a graph, block by block. -/
theorem run_eq {g : Graph} {result : ValueId} (hr : g.result? = some result)
    (answer : Request → Run Value) (unit depth : Nat) (parent : Option Nat) (args : List Value) :
    g.run answer unit depth parent args = (do
      let scope ← Run.enter parent g.first g.slotCount
      bindArguments scope g.first args
      (Peel.order g.blocks.length g.dependents).forM (g.runBlock answer ⟨unit, scope, depth⟩)
      g.conclude scope result) := by
  unfold Graph.run
  simp only [hr]
  simp only [Peel.visit, bind_assoc, pure_bind, List.size_toArray, List.getElem?_toArray]
  unfold conclude summary runBlock
  refine congrArg _ (funext fun scope => congrArg _ (funext fun _ => congrArg _ (funext fun _ => ?_)))
  split <;> rfl

end Graph

namespace Host

/-- A call of a closure: the number of arguments is checked first, then the depth of calls. -/
theorem answer_closure (h : Host) (fuel depth identity : Nat) (c : Closure) (args : List Value) :
    h.answer (fuel + 1) depth (.call (.closure identity c) args) =
      if args.length = c.graph.params.toNat then
        if h.maxDepth < depth + 1 then fail (.tooDeep (depth + 1) h.maxDepth)
        else c.graph.run (h.answer fuel (depth + 1)) c.unit (depth + 1) (some c.scope) args
      else fail (.wrongCount (Function.closure identity c).name (toString c.graph.params.toNat)
        args.length) := by
  rw [answer]
  split
  · split <;> rfl
  · rfl

/-- Answers depend on what the functions of a host do, on its limit and on its loader. -/
theorem answer_congr {h h' : Host} (hf : h.function = h'.function) (hd : h.maxDepth = h'.maxDepth)
    (hl : h.loader? = h'.loader?) : h.answer = h'.answer := by
  have hs : h.scriptOf = h'.scriptOf := by
    funext n args
    rw [scriptOf, scriptOf, hf]
  funext fuel
  induction fuel with
  | zero => rfl
  | succ fuel ih =>
    funext depth r
    cases r with
    | call f args =>
      cases f with
      | native n => rw [answer, answer, ih, hs]
      | method identity receiver m => rw [answer, answer, ih]
      | closure identity c => rw [answer_closure, answer_closure, ih, hd]
    | load target => rw [answer, answer, ih, hl]

/-- What the failure of a loaded program means to the one who loads it. -/
def loadFailure (target : String) : Stop → Stop
  | .error e => .error (.loadFailed target e.message)
  | .exhausted => .exhausted

theorem answer_program {h : Host} {loader : String → Loaded} {p : Program} {quiet : Bool}
    {target : String} (hl : h.loader? = some loader) (hp : loader target = .program p quiet)
    (fuel depth : Nat) (m : Machine) :
    h.answer (fuel + 1) depth (.load target) m =
      match (if quiet then quietly (p.run (h.answer fuel 0)) else p.run (h.answer fuel 0))
        { m with loads := m.loads.push target } with
      | .ok v m' => .ok v m'
      | .error e m' => .error (loadFailure target e) m' := by
  rw [answer]
  simp only [hl, hp]
  rw [bind_apply]
  simp only [noteLoad, modify, modifyGet, MonadStateOf.modifyGet, EStateM.modifyGet]
  simp only [tryCatch, tryCatchThe, MonadExceptOf.tryCatch, EStateM.tryCatch]
  cases (if quiet then quietly (p.run (h.answer fuel 0)) else p.run (h.answer fuel 0))
    { m with loads := m.loads.push target } with
  | ok v m' => rfl
  | error e m' => cases e <;> rfl

end Host

end Dataflow
