import Dataflow.Proofs.Run.Interleave
import Dataflow.Proofs.Run.Raises

/-!
# Runs in which errors are handed on

A function of the host may go on after a call of it has failed. Where none does, an error that turns
up anywhere in a run ends all that waits for it.

* `Host.Strict`: the functions of a host hand every error on;
* `Work.Strict`: so does everything under way;
* **`Work.Steps.strict`**: this stays so in every run.
-/

namespace Dataflow

open Run

/-- A script that ends with every error that it is answered with. -/
abbrev Script.Strict {α : Type} (s : Script α) : Prop := s.HandsOn fun _ => True

/-- A host whose functions hand every error on. -/
abbrev Host.Strict (h : Host) : Prop := h.HandsOn fun _ => True

mutual

/-- All scripts in what is under way hand every error on. -/
def Work.Strict : Work → Prop
  | .script _ s => s.Strict
  | .bind _ inner next =>
    inner.Strict ∧ (∀ e, next (.error e) = .fail e) ∧ ∀ x, (next x).Strict
  | .boot _ | .call .. => True
  | .level _ _ jobs _ => ∀ i, (jobs i).Strict
  | .load _ _ inner => inner.Strict

/-- All scripts in what a block does hand every error on. -/
def Job.Strict : Job → Prop
  | .working w => w.Strict
  | .waiting | .reading .. | .selecting .. | .storing _ | .finished | .failed _ => True

end

@[simp]
theorem Work.strict_script {depth : Nat} {s : Script Value} :
    (Work.script depth s).Strict ↔ s.Strict := by
  rw [Work.Strict]

@[simp]
theorem Work.strict_bind {depth : Nat} {w : Work} {next : Except RunError Value → Script Value} :
    (Work.bind depth w next).Strict ↔
      w.Strict ∧ (∀ e, next (.error e) = .fail e) ∧ ∀ x, (next x).Strict := by
  rw [Work.Strict]

@[simp]
theorem Work.strict_level {g : Graph} {f : Frame} {jobs : Nat → Job} {failure : Option RunError} :
    (Work.level g f jobs failure).Strict ↔ ∀ i, (jobs i).Strict := by
  rw [Work.Strict]

@[simp]
theorem Work.strict_load {target : String} {quiet : Bool} {w : Work} :
    (Work.load target quiet w).Strict ↔ w.Strict := by
  rw [Work.Strict]

@[simp]
theorem Job.strict_working {w : Work} : (Job.working w).Strict ↔ w.Strict := by
  rw [Job.Strict]

theorem Work.strict_boot (p : Program) : (Work.boot p).Strict := by
  rw [Work.Strict]
  trivial

theorem Work.strict_call (g : Graph) (unit depth : Nat) (parent : Option Nat) (args : List Value) :
    (Work.call g unit depth parent args).Strict := by
  rw [Work.Strict]
  trivial

theorem Work.strict_fail (e : RunError) : (Work.fail e).Strict := by
  rw [Work.fail, Work.strict_script]
  trivial

theorem Job.strict_of_not_working {j : Job} (hj : ∀ w, j ≠ .working w) : j.Strict := by
  cases j with
  | working w => exact absurd rfl (hj w)
  | _ =>
    rw [Job.Strict]
    trivial

theorem Job.strict_after {α : Type} {next : α → Job} (hn : ∀ a, (next a).Strict)
    (r : Except RunError α) : (Job.after next r).Strict := by
  cases r with
  | ok a => exact hn a
  | error e => exact Job.strict_of_not_working (j := .failed e) nofun

theorem Work.strict_after {α : Type} {next : α → Work} (hn : ∀ a, (next a).Strict)
    (r : Except RunError α) : (Work.after next r).Strict := by
  cases r with
  | ok a => exact hn a
  | error e => exact Work.strict_fail e

/-- What a call comes to. -/
theorem Host.Strict.called {h : Host} (hh : h.Strict) (depth : Nat) (f : Function)
    (args : List Value) : (h.called depth f args).Strict := by
  unfold Host.called
  cases f with
  | native n =>
    dsimp only
    split
    · rw [Work.strict_script]
      exact h.scriptOf_handsOn hh n args
    · exact Work.strict_fail _
  | method identity receiver m =>
    dsimp only
    split
    · rw [Work.strict_script]
      exact (m.script_orderly receiver args).handsOn _
    · exact Work.strict_fail _
  | closure identity c =>
    dsimp only
    split
    · split
      · exact Work.strict_fail _
      · exact Work.strict_call ..
    · exact Work.strict_fail _

/-- What a load comes to. -/
theorem Host.strict_loaded (target : String) (loaded : Loaded) :
    (Host.loaded target loaded).Strict := by
  cases loaded with
  | value v =>
    rw [Host.loaded, Work.strict_script]
    trivial
  | failed | dropped => exact Work.strict_fail _
  | program p quiet =>
    rw [Host.loaded, Work.strict_load]
    exact Work.strict_boot p

/-- What is offered by a block. -/
theorem Job.Offers.strict {f : Frame} {id : ValueId} {j : Job} {α : Type} {op : Op α}
    {k : Except RunError α → Job} (ho : j.Offers f id op k) (r : Except RunError α) :
    (k r).Strict := by
  cases ho with
  | call args a rest =>
    refine Job.strict_after (fun v => ?_) r
    rw [Job.strict_working, Work.strict_script]
    exact (v.apply_orderly _).handsOn _
  | name v name form =>
    refine Job.strict_after (fun text => ?_) r
    rw [Job.strict_working, Work.strict_script]
    exact (v.select_orderly text form).handsOn _
  | argument | constant | field | copy | put =>
    exact Job.strict_after (fun _ => Job.strict_of_not_working fun _ he => by cases he) r
  | stuck | done | fail => exact Job.strict_of_not_working nofun

/-- What is offered goes on with something that hands every error on. -/
theorem Work.Offers.strict {h : Host} {quiet : Bool} {w : Work} {α : Type} {op : Op α}
    {k : Except RunError α → Work} (ho : Work.Offers h quiet w op k) (hh : h.Strict)
    (hw : w.Strict) (r : Except RunError α) : (k r).Strict := by
  have update {jobs : Nat → Job} (hj : ∀ i, (jobs i).Strict) (i : Nat) {x : Job} (hx : x.Strict)
      (l : Nat) : (Function.update jobs i x l).Strict := by
    by_cases hl : l = i
    · rwa [hl, Function.update_self]
    · rw [Function.update_of_ne hl]
      exact hj l
  induction ho with
  | print | mute =>
    rw [Work.strict_script] at hw ⊢
    exact hw
  | mint quiet depth next =>
    rw [Work.strict_script] at hw
    exact Work.strict_after (fun n => Work.strict_script.mpr (hw n)) r
  | depth quiet depth next =>
    rw [Work.strict_script] at hw ⊢
    exact hw depth
  | ask quiet depth f args next =>
    rw [Work.strict_script] at hw
    exact Work.strict_bind.mpr ⟨hh.called depth f args, fun e => hw.1 e trivial, hw.2⟩
  | noLoader quiet depth target next hl =>
    rw [Work.strict_script] at hw
    exact Work.strict_bind.mpr ⟨Work.strict_fail _, fun e => hw.1 e trivial, hw.2⟩
  | load quiet depth target next hl =>
    rw [Work.strict_script] at hw
    exact Work.strict_bind.mpr ⟨Host.strict_loaded target _, fun e => hw.1 e trivial, hw.2⟩
  | answered quiet depth depth' v next =>
    rw [Work.strict_bind] at hw
    exact Work.strict_script.mpr (hw.2.2 (.ok v))
  | refused quiet depth depth' e next =>
    rw [Work.strict_bind] at hw
    exact Work.strict_script.mpr (hw.2.2 (.error e))
  | inner depth next ho ih =>
    rw [Work.strict_bind] at hw ⊢
    exact ⟨ih hw.1 r, hw.2⟩
  | loading target quiet' ho ih =>
    rw [Work.strict_load] at hw ⊢
    exact ih hw r
  | boot quiet p => exact Work.strict_after (fun unit => Work.strict_call ..) r
  | enter quiet unit depth parent args hr =>
    refine Work.strict_after (fun f => ?_) r
    rw [Work.strict_level]
    exact fun i => Job.strict_of_not_working nofun
  | @start quiet g f jobs i b hb hwait hfree =>
    rw [Work.strict_level] at hw ⊢
    exact update hw i (Job.strict_of_not_working (by cases b <;> exact nofun))
  | @job quiet g f jobs failure i b α op k hb ho =>
    rw [Work.strict_level] at hw ⊢
    exact update hw i (ho.strict r)
  | @work quiet g f jobs failure i w α op k hi ho ih =>
    rw [Work.strict_level] at hw ⊢
    refine update hw i (Job.strict_working.mpr (ih ?_ r))
    have hj := hw i
    rwa [hi, Job.strict_working] at hj
  | result quiet f hr hf =>
    refine Work.strict_after (fun v => ?_) r
    rw [Work.strict_script]
    trivial
  | loaded =>
    rw [Work.strict_script]
    trivial
  | empty | abort | cycle | unloaded => exact Work.strict_fail _

/-- **Where every error is handed on, this stays so.** -/
theorem Work.Steps.strict {h : Host} {quiet : Bool} {c c' : Work × Machine}
    (hs : Work.Steps h quiet c c') (hh : h.Strict) (hc : c.1.Strict) : c'.1.Strict := by
  induction hs with
  | refl => exact hc
  | tail _ hstep ih =>
    cases hstep with
    | intro ho hr => exact ho.strict hh ih _

end Dataflow
