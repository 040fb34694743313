import Dataflow.Compile.Emit
import Dataflow.Proofs.Run.Lookup
import Dataflow.Proofs.Run.Lost

/-!
# Which functions equal themselves

A function that is read twice is one and the same function, unless it is a closure over the
activation that holds it. Such a closure is put together anew each time it is read, with an identity
of its own, so it differs from itself. Every other function keeps its identity: parameters, and
whatever is read from an activation other than the one the function was declared in.

* `Function.isOver`: closures over an activation;
* `Machine.Tidy`: activations keep closures over themselves only as declarations;
* `Work.Step.tidy`, `Work.Steps.tidy`: a step keeps this, and so does a run;
* **`Work.Steps.find_twice`**: what comes of reading a function twice;
* **`Program.differing_from_itself`**: a program in which a function differs from itself.
-/

namespace Dataflow

open Run

/-- A closure over an activation. -/
def Function.isOver (scope : Nat) : Function → Bool
  | closure _ c => c.scope == scope
  | native _ | method .. => false

theorem Function.same_self (f : Function) : f.same f = true := by
  cases f <;> simp [Function.same]

/-- What activation `scope` keeps is not a closure over itself, unless as a declaration. -/
def Slot.Tidy (scope : Nat) : Slot → Prop
  | .value (.function f) => f.isOver scope = false
  | .value _ | .declared .. => True

theorem Slot.tidy_keep (scope : Nat) (v : Value) : (Slot.keep scope v).Tidy scope := by
  unfold Slot.keep
  split
  · split
    case isTrue => trivial
    case isFalse h => simpa [Slot.Tidy, Function.isOver] using h
  · rename_i hne
    cases v with
    | function f =>
      cases f with
      | closure i c => exact absurd rfl (hne i c)
      | native | method => rfl
    | _ => trivial

/-- Activations keep closures over themselves only as declarations. -/
def Machine.Tidy (m : Machine) : Prop := ∀ {scope id s}, m.slot? scope id = some s → s.Tidy scope

theorem Machine.tidy_blank : Machine.blank.Tidy := fun h => by
  simp [Machine.blank, Machine.slot?] at h

/-! ## Computations -/

/-- A computation after which machines are tidy that were tidy before. -/
def Run.KeepsTidy {α : Type} (x : Run α) : Prop := ∀ m r m', m.Tidy → Yields (x m) r m' → m'.Tidy

namespace Run.KeepsTidy

variable {α β : Type}

theorem of_still {x : Run α} (h : Still x) : KeepsTidy x := by
  intro m r m' hm hr scope id s hs
  unfold Machine.slot? at hs
  rw [(h m r m' hr).1] at hs
  exact hm hs

theorem pure (a : α) : KeepsTidy (pure a : Run α) := by
  intro m r m' hm hr
  cases hr
  exact hm

theorem fail (e : RunError) : KeepsTidy (fail e : Run α) := by
  intro m r m' hm hr
  cases hr
  exact hm

theorem bind {x : Run α} {y : α → Run β} (hx : KeepsTidy x) (hy : ∀ a, KeepsTidy (y a)) :
    KeepsTidy (x >>= y) := by
  intro m r m' hm hr
  rcases hr.bind_cases with ⟨a, m₁, ha, hr⟩ | ⟨e, he, rfl⟩
  · exact hy a _ _ _ (hx m _ _ hm ha) hr
  · exact hx m _ _ hm he

theorem enter (parent : Option Nat) (first : ValueId) (count : Nat) :
    KeepsTidy (enter parent first count) := by
  intro m r m' hm hr
  rw [enter_apply] at hr
  cases hr
  intro scope id s hs
  rw [Machine.slot?_grow] at hs
  split at hs
  · rw [Activation.slot?_blank] at hs
    cases hs
  · exact hm hs

theorem put {scope : Nat} {s : Slot} (hs : s.Tidy scope) (id : ValueId) :
    KeepsTidy (put scope id s) := by
  intro m r m' hm hr
  rcases put_cases hr with rfl | ⟨a, o, ha, ho, -, rfl⟩
  · exact hm
  · intro scope' id' s' hs'
    rw [Machine.slot?_store ha ho] at hs'
    split at hs'
    case isTrue h =>
      cases hs'
      exact h.1 ▸ hs
    case isFalse => exact hm hs'

theorem bindArguments (scope : Nat) (id : ValueId) (vs : List Value) :
    KeepsTidy (bindArguments scope id vs) := by
  induction vs generalizing id with
  | nil => exact pure ()
  | cons v vs ih => exact bind (put (Slot.tidy_keep scope v) id) fun _ => ih (id + 1)

end Run.KeepsTidy

/-- An operation keeps nothing that it should not. -/
def Op.Tidy {α : Type} : Op α → Prop
  | .put scope _ s => s.Tidy scope
  | _ => True

theorem Op.keepsTidy {α : Type} {op : Op α} (hop : op.Tidy) : KeepsTidy op.run := by
  cases op with
  | idle => exact .pure ()
  | find f id => exact .of_still (.frame_find f id)
  | constant f id => exact .of_still (.of_peeks (f.peeks_constant id))
  | fieldName f id => exact .of_still (.fieldName f id)
  | mint | print | note | addImage =>
    intro m r m' hm hr
    cases hr
    exact hm
  | enter g unit depth parent args =>
    exact .bind (.enter parent g.first g.slotCount) fun scope =>
      .bind (.bindArguments scope g.first args) fun _ => .pure _
  | put scope id s => exact .put hop id
  | result scope id =>
    refine .bind (.of_still (.read scope id)) fun v => ?_
    cases v with
    | none => exact .fail _
    | some v => exact .pure v

/-! ## Interleaved runs -/

mutual

/-- What blocks are about to keep is not a closure over their own activation. -/
def Work.Tidy : Work → Prop
  | .script .. | .boot _ | .call .. => True
  | .bind _ inner _ | .load _ _ inner => inner.Tidy
  | .level _ f jobs _ => ∀ i, (jobs i).Tidy f.scope

/-- What a block of activation `scope` is about to keep is not a closure over it. -/
def Job.Tidy (scope : Nat) : Job → Prop
  | .storing s => s.Tidy scope
  | .working w => w.Tidy
  | .waiting | .reading .. | .selecting .. | .finished | .failed _ => True

end

theorem Work.tidy_fail (e : RunError) : (Work.fail e).Tidy := by
  rw [Work.fail, Work.Tidy]
  trivial

theorem Work.tidy_after {α : Type} {next : α → Work} (hn : ∀ a, (next a).Tidy)
    (r : Except RunError α) : (Work.after next r).Tidy := by
  cases r with
  | ok a => exact hn a
  | error e => exact Work.tidy_fail e

theorem Job.tidy_after {α : Type} {scope : Nat} {next : α → Job} (hn : ∀ a, (next a).Tidy scope)
    (r : Except RunError α) : (Job.after next r).Tidy scope := by
  cases r with
  | ok a => exact hn a
  | error e => trivial

theorem Block.tidy_start (b : Block) (f : Frame) : (b.start f).Tidy f.scope := by
  cases b <;> simp [Block.start, Job.Tidy, Slot.Tidy]

theorem Host.tidy_called (h : Host) (depth : Nat) (f : Function) (args : List Value) :
    (h.called depth f args).Tidy := by
  unfold Host.called
  repeat' split
  all_goals first | exact Work.tidy_fail _ | (rw [Work.Tidy]; trivial)

theorem Host.tidy_loaded (target : String) (l : Loaded) : (Host.loaded target l).Tidy := by
  cases l <;> simp [Host.loaded, Work.Tidy, Work.fail]

/-- A block keeps what it may. -/
theorem Job.Offers.tidy {f : Frame} {id : ValueId} {j : Job} {α : Type} {op : Op α}
    {k : Except RunError α → Job} (ho : j.Offers f id op k) (hj : j.Tidy f.scope) :
    op.Tidy ∧ ∀ r, (k r).Tidy f.scope := by
  cases ho with
  | argument | call | field | name =>
    exact ⟨trivial, Job.tidy_after fun _ => by simp [Job.Tidy, Work.Tidy]⟩
  | constant | copy =>
    exact ⟨trivial, Job.tidy_after fun v => by
      rw [Job.Tidy]
      exact Slot.tidy_keep f.scope v⟩
  | stuck | fail => exact ⟨trivial, fun _ => by simp [Job.Tidy]⟩
  | done depth v =>
    refine ⟨trivial, fun _ => ?_⟩
    rw [Job.Tidy]
    exact Slot.tidy_keep f.scope v
  | put s =>
    rw [Job.Tidy] at hj
    exact ⟨hj, Job.tidy_after fun _ => by simp [Job.Tidy]⟩

/-- What comes of a step keeps what it may. -/
theorem Work.Offers.tidy {h : Host} {quiet : Bool} {w : Work} {α : Type} {op : Op α}
    {k : Except RunError α → Work} (ho : Work.Offers h quiet w op k) (hw : w.Tidy) :
    op.Tidy ∧ ∀ r, (k r).Tidy := by
  induction ho with
  | print | mute | depth | answered | refused | loaded =>
    exact ⟨trivial, fun _ => by simp [Work.Tidy]⟩
  | mint | result | boot => exact ⟨trivial, Work.tidy_after fun _ => by simp [Work.Tidy]⟩
  | enter => exact ⟨trivial, Work.tidy_after fun _ => by simp [Work.Tidy, Job.Tidy]⟩
  | ask _ depth f args =>
    refine ⟨trivial, fun _ => ?_⟩
    rw [Work.Tidy]
    exact h.tidy_called depth f args
  | noLoader =>
    refine ⟨trivial, fun _ => ?_⟩
    rw [Work.Tidy]
    exact Work.tidy_fail _
  | load =>
    refine ⟨trivial, fun _ => ?_⟩
    rw [Work.Tidy]
    exact Host.tidy_loaded _ _
  | empty | abort | cycle | unloaded => exact ⟨trivial, fun _ => Work.tidy_fail _⟩
  | inner depth next ho ih =>
    rw [Work.Tidy] at hw
    refine ⟨(ih hw).1, fun r => ?_⟩
    rw [Work.Tidy]
    exact (ih hw).2 r
  | loading target quiet' ho ih =>
    rw [Work.Tidy] at hw
    refine ⟨(ih hw).1, fun r => ?_⟩
    rw [Work.Tidy]
    exact (ih hw).2 r
  | start _ f hb _ _ =>
    rw [Work.Tidy] at hw
    refine ⟨trivial, fun _ => ?_⟩
    rw [Work.Tidy]
    exact Function.forall_update_iff _ _ |>.mpr ⟨Block.tidy_start _ f, fun i _ => hw i⟩
  | job _ _ _ ho =>
    rw [Work.Tidy] at hw
    refine ⟨(ho.tidy (hw _)).1, fun r => ?_⟩
    rw [Work.Tidy]
    exact Function.forall_update_iff _ _ |>.mpr ⟨(ho.tidy (hw _)).2 r, fun i _ => hw i⟩
  | @work _ g f jobs _ i w _ _ _ hi ho ih =>
    rw [Work.Tidy] at hw
    have hj := hw i
    rw [hi, Job.Tidy] at hj
    refine ⟨(ih hj).1, fun r => ?_⟩
    rw [Work.Tidy]
    refine Function.forall_update_iff _ _ |>.mpr ⟨?_, fun i _ => hw i⟩
    rw [Job.Tidy]
    exact (ih hj).2 r

/-- A step leaves a tidy machine tidy. -/
theorem Work.Step.tidy {h : Host} {quiet : Bool} {c c' : Work × Machine}
    (hs : Work.Step h quiet c c') (hc : c.1.Tidy ∧ c.2.Tidy) : c'.1.Tidy ∧ c'.2.Tidy := by
  cases hs with
  | intro ho hr =>
    obtain ⟨hop, hk⟩ := ho.tidy hc.1
    exact ⟨hk _, Op.keepsTidy hop _ _ _ hc.2 hr⟩

/-- So does a run of any length. -/
theorem Work.Steps.tidy {h : Host} {quiet : Bool} {c c' : Work × Machine}
    (hs : Work.Steps h quiet c c') (hc : c.1.Tidy ∧ c.2.Tidy) : c'.1.Tidy ∧ c'.2.Tidy := by
  induction hs with
  | refl => exact hc
  | tail _ hstep ih => exact hstep.tidy ih

/-- Nothing is lost in a run. -/
theorem Work.Steps.grows {h : Host} {quiet : Bool} {c c' : Work × Machine}
    (hs : Work.Steps h quiet c c') (sites : Nat → Site) : Grows sites c.2 sites c'.2 := by
  induction hs with
  | refl => exact .refl sites _
  | tail _ hstep ih =>
    cases hstep with
    | @intro _ m m' _ op k r ho hr => exact ih.trans (op.growing sites m r m' hr)

/-! ## Reading twice -/

/-- A function is found as an activation keeps it, or it is put together anew. -/
theorem Run.find_function {m m' : Machine} {scope holder : Nat} {id : ValueId} {f : Function}
    (hh : m.holder? id scope = some holder) (hr : Run.find scope id m = .ok (.function f) m') :
    (m.slot? holder id = some (.value (.function f)) ∧ m' = m) ∨
    ∃ graph unit name, m.slot? holder id = some (.declared graph unit name) ∧
      f = .closure m.identities ⟨graph, unit, holder, name⟩ ∧ m.identities < m'.identities := by
  rw [find_apply, hh] at hr
  dsimp only at hr
  cases hs : m.slot? holder id with
  | none =>
    rw [hs] at hr
    cases hr
  | some s =>
    rw [hs] at hr
    cases s with
    | value v =>
      cases hr
      exact .inl ⟨rfl, rfl⟩
    | declared graph unit name =>
      cases hr
      exact .inr ⟨graph, unit, name, rfl, rfl, Nat.lt_succ_self _⟩

/-- **Which functions equal themselves.**

A function that was read at some moment of a run is there whenever its number is read again from any
activation from which it leads to the same place, and the two are equal if and only if the function
is not a closure over the activation that holds it. If it is not, the two are one and the same;
if it is, they are the same closure under different identities. -/
theorem Work.Steps.find_twice {h : Host} {p : Program} {m₀ m : Machine} {w : Work}
    (hm₀ : m₀.Tidy) (hs : Work.Steps h false (.boot p, m₀) (w, m)) {scope holder : Nat}
    {id : ValueId} (hh : m.holder? id scope = some holder) {f : Function} {m₁ : Machine}
    (hr : Run.find scope id m = .ok (.function f) m₁) {w₁ w₂ : Work} {m₂ : Machine}
    (hl : Work.Steps h false (w₁, m₁) (w₂, m₂)) {scope' : Nat}
    (hh' : m₂.holder? id scope' = some holder) :
    ∃ f' m₃, Run.find scope' id m₂ = .ok (.function f') m₃ ∧
      (f.isOver holder = false → f' = f) ∧
      (f.isOver holder = true → ∃ i j c, f = .closure i c ∧ f' = .closure j c ∧ i < j) ∧
      Value.equals (.function f) (.function f') = .done (!f.isOver holder) := by
  have hm : m.Tidy := (hs.tidy ⟨by simp [Work.Tidy], hm₀⟩).2
  have hread := Run.Growing.of_still (.find scope id) (fun _ => default) _ _ _ (.of_ok hr)
  have hgrows := hread.trans (hl.grows fun _ => default)
  rcases Run.find_function hh hr with ⟨hslot, rfl⟩ | ⟨graph, unit, name, hslot, rfl, hlt⟩
  · have hover : f.isOver holder = false := hm hslot
    refine ⟨f, m₂, ?_, fun _ => rfl, fun ho => ?_, ?_⟩
    · rw [find_apply, hh']
      simp only [hgrows.slot? hslot]
    · rw [hover] at ho
      cases ho
    · rw [hover]
      exact congrArg Script.done f.same_self
  · have hover : (Function.closure m.identities ⟨graph, unit, holder, name⟩).isOver holder = true :=
      beq_self_eq_true holder
    have hnew : m.identities < m₂.identities :=
      Nat.lt_of_lt_of_le hlt (hl.grows fun _ => default).identities
    refine ⟨.closure m₂.identities ⟨graph, unit, holder, name⟩,
      { m₂ with identities := m₂.identities + 1 }, ?_, fun ho => ?_,
      fun _ => ⟨_, _, _, rfl, rfl, hnew⟩, ?_⟩
    · rw [find_apply, hh']
      simp only [hgrows.slot? hslot]
    · rw [hover] at ho
      cases ho
    · rw [hover]
      exact congrArg Script.done (beq_false_of_ne (Nat.ne_of_lt hnew))

/-- The expression `name == name`. -/
def Node.comparison (name : String) : Node :=
  .call default (.select default (.ident default name) "==" .binary) [.ident default name]

/-- The statements `fn f(): 1`, `fn t(x): x == x`, `t(f)` and `f == f`. -/
def Node.comparing : Node :=
  .list default [.function default "f" [] (.literal default (.int 1)),
    .function default "t" ["x"] (.comparison "x"),
    .call default (.ident default "t") [.ident default "f"], .comparison "f"]

/-- The body of `f`. -/
def Graph.comparedBody : Graph := ⟨2, 0, [.steps 2 [.constant 0]], [[]]⟩

/-- The body of `t`. -/
def Graph.comparingBody : Graph :=
  ⟨2, 1, [.steps 3 [.field 2 1 .binary], .steps 4 [.argument 2, .call 3]], [[1], []]⟩

/-- The program of these statements. -/
def Program.comparing : Program where
  code := ⟨.zero, [.ofInt 1, .ofText "=="], [.enter 0, .constant 0, .leave, .enter 1,
    .field 2 1 .binary, .argument 2, .call 3, .leave, .argument 0, .call 1, .field 0 1 .binary,
    .argument 0, .call 3]⟩
  graph := ⟨0, 0, [.function 0 Graph.comparedBody, .function 1 Graph.comparingBody,
    .steps 2 [.argument 0, .call 1], .steps 3 [.field 0 1 .binary],
    .steps 4 [.argument 0, .call 3]], [[2, 3, 4], [2], [], [4], []]⟩
  environment := .empty

/-- The function `f`, under an identity. -/
def Function.compared (identity : Nat) : Function := .closure identity ⟨Graph.comparedBody, 0, 0, 0⟩

/-- The machine after the run of the program: `x == x` was true in `t` and `f == f` was false. -/
def Machine.compared : Machine where
  images := #[Program.comparing.image]
  activations := #[
    ⟨none, 0, #[some (.declared Graph.comparedBody 0 0), some (.declared Graph.comparingBody 0 1),
      some (.value (.bool true)),
      some (.value (.function (.method 4 (.function (.compared 3)) .equal))),
      some (.value (.bool false))]⟩,
    ⟨some 0, 2, #[some (.value (.function (.compared 0))),
      some (.value (.function (.method 2 (.function (.compared 0)) .equal))),
      some (.value (.bool true))]⟩]
  identities := 6
  printed := #[]
  loads := #[]

theorem Program.run_comparing :
    Program.comparing.run (Host.answer ⟨⟨64, .sequential⟩, #[], none⟩ 2 0) .blank =
      .ok (.bool false) .compared := by
  cbv

theorem Machine.find_compared : Run.find 0 0 Machine.compared =
    .ok (.function (.compared 6)) { Machine.compared with identities := 7 } := by
  cbv

/-- The parameter `x` of `t` equals itself. -/
theorem Work.Steps.find_twice_comparing : Machine.blank.Tidy ∧
    ∃ depth, Work.Steps ⟨⟨64, .sequential⟩, #[], none⟩ false (.boot .comparing, .blank)
        (.ended depth (.ok (.bool false)), .compared) ∧
      Machine.compared.holder? 2 1 = some 1 ∧
      Run.find 1 2 .compared = .ok (.function (.compared 0)) .compared ∧
      ∃ f m, Run.find 1 2 .compared = .ok (.function f) m ∧
        Value.equals (.function (.compared 0)) (.function f) = .done true := by
  have hh : Machine.compared.holder? 2 1 = some 1 := by cbv
  have hr : Run.find 1 2 .compared = .ok (.function (.compared 0)) .compared := by cbv
  obtain ⟨depth, hs⟩ := Program.steps_of_run (.of_ok Program.run_comparing)
  have hl : Work.Steps ⟨⟨64, .sequential⟩, #[], none⟩ false (.boot .comparing, .compared)
      (.boot .comparing, .compared) := .refl
  obtain ⟨f, m, hr', -, -, he⟩ := Work.Steps.find_twice Machine.tidy_blank hs hh hr hl hh
  exact ⟨Machine.tidy_blank, depth, hs, hh, hr, f, m, hr', he⟩

/-- **A function that differs from itself**: `f == f` is false where `f` is declared, and reading
the number of `f` twice gives two functions that differ. -/
theorem Program.differing_from_itself :
    (Node.comparing.compile Environment.empty.idOf?).toOption = some Program.comparing.code ∧
    Graph.build Program.comparing.code.instructions = .ok Program.comparing.graph ∧
    Program.comparing.run (Host.answer ⟨⟨64, .sequential⟩, #[], none⟩ 2 0) .blank =
      .ok (.bool false) .compared ∧
    ∃ f f' m m', Run.find 0 0 .compared = .ok (.function f) m ∧
      Run.find 0 0 m = .ok (.function f') m' ∧
      Value.equals (.function f) (.function f') = .done false :=
  ⟨by decide +kernel, by cbv, Program.run_comparing, .compared 6, .compared 7, _,
    { Machine.compared with identities := 8 }, Machine.find_compared, by cbv, by cbv⟩

end Dataflow
