import Dataflow.Proofs.Run.Raises
import Dataflow.Proofs.Run.Sequential

/-!
# Relations that runs keep

Runs are put together from operations on the machine, one after the other, and from the answers to
requests. A relation between computations that operations are in and that sequences keep is kept by
scripts, blocks and graphs.

* `Op.isInternal_of_error`: operations fail only with internal errors;
* `Run.Congruence`: what is asked of a relation;
* `Script.run_congr`, `runSteps_congr`, `Block.run_congr`: scripts and blocks keep it;
* **`Graph.run_congr`**, **`Program.run_congr`**: graphs and programs keep it.
-/

namespace Dataflow

open Run

/-! ## The errors of operations -/

namespace Run

variable {α β : Type}

/-- A computation that fails only with internal errors. -/
def Inner (x : Run α) : Prop :=
  ∀ m e m', x m = .error e m' → ∃ e', e = .error e' ∧ e'.isInternal = true

namespace Inner

/-- A computation that never fails. -/
theorem of_ok {x : Run α} (h : ∀ m, ∃ a m', x m = .ok a m') : Inner x := by
  intro m e m' he
  obtain ⟨a, m₁, hx⟩ := h m
  rw [hx] at he
  cases he

theorem pure (a : α) : Inner (pure a : Run α) := of_ok fun m => ⟨a, m, rfl⟩

theorem fail {e : RunError} (he : e.isInternal = true) : Inner (fail e : Run α) := by
  rintro m _ _ ⟨⟩
  exact ⟨e, rfl, he⟩

theorem bind {x : Run α} {f : α → Run β} (hx : Inner x) (hf : ∀ a, Inner (f a)) :
    Inner (x >>= f) := by
  intro m e m' h
  rw [bind_apply] at h
  cases hr : x m with
  | ok a m₁ =>
    rw [hr] at h
    exact hf a _ _ _ h
  | error e₁ m₁ =>
    rw [hr] at h
    cases h
    exact hx _ _ _ hr

theorem put (scope : Nat) (id : ValueId) (s : Slot) : Inner (put scope id s) := by
  intro m e m' h
  unfold Run.put at h
  split at h
  · cases h
    exact ⟨_, rfl, rfl⟩
  · split at h
    · cases h
      exact ⟨_, rfl, rfl⟩
    · cases h

theorem bindArguments (scope : Nat) (id : ValueId) (args : List Value) :
    Inner (bindArguments scope id args) := by
  induction args generalizing id with
  | nil => exact pure ()
  | cons v vs ih => exact bind (put scope id _) fun _ => ih (id + 1)

theorem read (scope : Nat) (id : ValueId) : Inner (read scope id) := by
  intro m e m' h
  rw [read_apply] at h
  split at h <;> cases h

theorem find (scope : Nat) (id : ValueId) : Inner (Run.find scope id) := by
  refine bind (x := MonadState.get) (of_ok fun _ => ⟨_, _, rfl⟩) fun m => ?_
  split
  · exact fail rfl
  · refine bind (read _ id) fun v => ?_
    cases v with
    | some v => exact pure v
    | none => exact fail rfl

theorem constant (f : Frame) (id : ConstantId) : Inner (f.constant id) := by
  refine bind (x := f.image) (of_ok fun _ => ⟨_, _, rfl⟩) fun image => ?_
  split
  · exact fail rfl
  · split
    · exact pure _
    · exact fail rfl

end Inner

end Run

/-- A relation between computations that operations and errors of the kind `P` are in, and that is kept
when one computation follows another, as long as errors of the kind `Q` are handed on. -/
structure Run.Congruence (P Q : RunError → Prop) (R : ∀ {α : Type}, Run α → Run α → Prop) :
    Prop where
  pure {α : Type} (a : α) : R (pure a) (pure a)
  fail {α : Type} {e : RunError} (he : P e) : R (fail e : Run α) (fail e)
  op {α : Type} (op : Op α) : R op.run op.run
  bind {α β : Type} {x y : Run α} {f g : α → Run β} (hxy : R x y) (hfg : ∀ a, R (f a) (g a)) :
    R (x >>= f) (y >>= g)
  attempt {α β : Type} {x y : Run α} {f g : Except RunError α → Run β} (hxy : R x y)
    (hfg : ∀ s, ErrorsAre P s → R (f s) (g s)) (hf : ∀ e, Q e → f (.error e) = Run.fail e)
    (hg : ∀ e, Q e → g (.error e) = Run.fail e) : R (x.attempt >>= f) (y.attempt >>= g)

/-- A script has only errors of the kind `P` and hands on those of the kind `Q`. -/
structure Script.Keeps {α : Type} (P Q : RunError → Prop) (s : Script α) : Prop where
  fails : s.Fails P
  handsOn : s.HandsOn Q

theorem Script.Orderly.keeps {α : Type} {P Q : RunError → Prop} {s : Script α} (hs : s.Orderly)
    (hP : ∀ e, e.isOrdinary = true → P e) : s.Keeps P Q := ⟨hs.fails hP, hs.handsOn Q⟩

section Congruence

variable {P Q : RunError → Prop} {R : ∀ {α : Type}, Run α → Run α → Prop} {a b : Request → Run Value}

theorem Run.Congruence.forM (hR : Congruence P Q R) {γ : Type} {f g : γ → Run PUnit}
    (h : ∀ c, R (f c) (g c)) (cs : List γ) : R (cs.forM f) (cs.forM g) := by
  induction cs with
  | nil => exact hR.pure _
  | cons c cs ih => exact hR.bind (h c) fun _ => ih

theorem Run.Congruence.ofExcept (hR : Congruence P Q R) {α : Type} {x : Except RunError α}
    (hx : ErrorsAre P x) : R (Run.ofExcept x) (Run.ofExcept x) := by
  cases x with
  | ok a => exact hR.pure a
  | error e => exact hR.fail (hx e rfl)

/-- Scripts keep a relation. -/
theorem Script.run_congr (hR : Congruence P Q R) (hab : ∀ r, R (a r) (b r)) (level : Nat) {α : Type}
    {s : Script α} (hs : s.Keeps P Q) : R (s.run a level) (s.run b level) := by
  obtain ⟨hf, hh⟩ := hs
  induction s with
  | done v => exact hR.pure v
  | fail e => exact hR.fail (hf e .fail)
  | ask r next ih =>
    have handed (c : Request → Run Value) (e : RunError) (he : Q e) :
        (next (.error e)).run c level = Run.fail e := by
      rw [hh.1 e he]
      rfl
    exact hR.attempt (hab r) (fun s hs => ih s (hf.answer hs) (hh.2 s)) (handed a) (handed b)
  | print text next ih => exact hR.bind (hR.op (.print text)) fun _ => ih (fails_print.mp hf) hh
  | mint next ih => exact hR.bind (hR.op .mint) fun n => ih n (fails_mint.mp hf n) (hh n)
  | depth next ih => exact ih level (fails_depth.mp hf level) (hh level)

variable (hP : ∀ e, e.isLimit = false → P e)

include hP

theorem runSteps_congr (hR : Congruence P Q R) (hab : ∀ r, R (a r) (b r)) (f : Frame) (id : ValueId)
    (args : List Value) (is : List Instruction) :
    R (runSteps a f id args is) (runSteps b f id args is) := by
  have ordinary (e : RunError) (he : e.isOrdinary = true) : P e :=
    hP e (RunError.not_isLimit_of_isOrdinary he)
  induction is generalizing args with
  | nil => exact hR.fail (hP _ rfl)
  | cons i is ih =>
    cases i with
    | argument v => exact hR.bind (hR.op (.find f v)) fun w => ih (w :: args)
    | call callee =>
      refine hR.bind (hR.op (.find f callee)) fun v => ?_
      exact Script.run_congr hR hab f.depth ((v.apply_orderly _).keeps ordinary)
    | field value name form =>
      refine hR.bind (hR.op (.find f value)) fun v => hR.bind (hR.op (.fieldName f name)) fun t => ?_
      exact Script.run_congr hR hab f.depth ((v.select_orderly t form).keeps ordinary)
    | constant c => exact hR.op (.constant f c)
    | copy v => exact hR.op (.find f v)
    | enter _ | leave => exact hR.fail (hP _ rfl)

theorem Block.run_congr (hR : Congruence P Q R) (hab : ∀ r, R (a r) (b r)) (f : Frame)
    (block : Block) : R (block.run a f) (block.run b f) := by
  cases block with
  | function id body => exact hR.op (.put f.scope id (.declared body f.unit id))
  | steps id is =>
    exact hR.bind (runSteps_congr hP hR hab f id [] is) fun v =>
      hR.op (.put f.scope id (.keep f.scope v))

/-- Graphs keep a relation. -/
theorem Graph.run_congr (hR : Congruence P Q R) (hab : ∀ r, R (a r) (b r)) (g : Graph)
    (unit depth : Nat) (parent : Option Nat) (args : List Value) :
    R (g.run a unit depth parent args) (g.run b unit depth parent args) := by
  cases hres : g.result? with
  | none =>
    have he (c : Request → Run Value) : g.run c unit depth parent args = Run.fail .emptyBody := by
      unfold Graph.run
      rw [hres]
    rw [he, he]
    exact hR.fail (hP _ rfl)
  | some result =>
    rw [Graph.run_eq_enter hres, Graph.run_eq_enter hres]
    refine hR.bind (hR.op (.enter g unit depth parent args)) fun f => hR.bind ?_ fun _ => ?_
    · refine hR.forM (fun i => ?_) _
      unfold Graph.runBlock
      cases g.blocks[i]? with
      | none => exact hR.pure _
      | some block => exact block.run_congr hP hR hab f
    · unfold Graph.conclude
      split
      · exact hR.op (.result f.scope result)
      · exact hR.fail (hP _ rfl)

/-- Programs keep a relation. -/
theorem Program.run_congr (hR : Congruence P Q R) (hab : ∀ r, R (a r) (b r)) (p : Program) :
    R (p.run a) (p.run b) :=
  hR.bind (hR.op (.addImage p.image)) fun unit => p.graph.run_congr hP hR hab unit 0 none []

end Congruence

end Dataflow
