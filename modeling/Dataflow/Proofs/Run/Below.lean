import Dataflow.Proofs.Run.Congruence

/-!
# Runs that were given more

A run that is given more of whatever bounds it either still stops for want of it or does exactly
what it did before. `Run.Below` says so, and everything that is put together from runs keeps it.

* `Run.Below`: the first run stops for want of something, or both do the same;
* `Script.Asks`: a script asks only for requests of a kind;
* **`Script.run_below`**, **`Graph.run_below`**: scripts and graphs keep the order;
* **`Host.answer_mono`**: answers that are allowed to nest more deeply.
-/

namespace Dataflow

namespace Run

variable {α β : Type}

/-- A result that stands for a run that was stopped from outside. -/
def Stopped (r : EStateM.Result Stop Machine α) : Prop := ∃ m, r = .error .exhausted m

/-- Wherever the first run is not stopped from outside, both runs do the same. -/
def Below (x y : Run α) : Prop := ∀ m, Stopped (x m) ∨ x m = y m

theorem Below.refl (x : Run α) : Below x x := fun _ => .inr rfl

theorem Below.trans {x y z : Run α} (hxy : Below x y) (hyz : Below y z) : Below x z := by
  intro m
  rcases hxy m with h | h
  · exact .inl h
  · rw [h]
    exact hyz m

theorem below_of_eq {x y : Run α} {m : Machine} (h : Below x y) {r : EStateM.Result Stop Machine α}
    (hr : ¬ Stopped r) (hx : x m = r) : y m = r := by
  rcases h m with hs | he
  · exact absurd (hx ▸ hs) hr
  · exact he ▸ hx

theorem exhausted_below (y : Run α) : Below (throw .exhausted) y := fun m => .inl ⟨m, rfl⟩

theorem Below.bind {x y : Run α} {f g : α → Run β} (hxy : Below x y)
    (hfg : ∀ a, Below (f a) (g a)) : Below (x >>= f) (y >>= g) := by
  intro m
  rw [bind_apply, bind_apply]
  rcases hxy m with ⟨m', hs⟩ | he
  · rw [hs]
    exact .inl ⟨m', rfl⟩
  · rw [he]
    cases y m with
    | ok a m' => exact hfg a m'
    | error e m' => exact .inr rfl

theorem Below.bind_right (x : Run α) {f g : α → Run β} (hfg : ∀ a, Below (f a) (g a)) :
    Below (x >>= f) (x >>= g) := (Below.refl x).bind hfg

theorem Below.attempt {x y : Run α} (hxy : Below x y) : Below x.attempt y.attempt := by
  intro m
  rw [attempt_apply, attempt_apply]
  rcases hxy m with ⟨m', hs⟩ | he
  · rw [hs]
    exact .inl ⟨m', rfl⟩
  · rw [he]
    exact .inr rfl

theorem congruence_below : Congruence (fun _ => True) (fun _ => False) Below where
  pure _ := .refl _
  fail _ := .refl _
  op _ := .refl _
  bind := Below.bind
  attempt hxy hfg _ _ := hxy.attempt.bind fun s => hfg s fun _ _ => trivial

theorem Below.quietly {x y : Run α} (hxy : Below x y) : Below (Run.quietly x) (Run.quietly y) := by
  intro m
  unfold Run.quietly
  rcases hxy { m with printed := #[] } with ⟨m', hs⟩ | he
  · rw [hs]
    exact .inl ⟨_, rfl⟩
  · rw [he]
    exact .inr rfl

end Run

open Run

/-! ## Scripts -/

/-- Whatever a script is answered, it asks only for requests of a kind. -/
def Script.Asks {α : Type} (P : Request → Prop) : Script α → Prop
  | done _ | fail _ => True
  | ask r next => P r ∧ ∀ x, (next x).Asks P
  | print _ next => next.Asks P
  | mint next | depth next => ∀ n, (next n).Asks P

/-- Scripts keep the order, as far as the requests go that they make. -/
theorem Script.run_below {α : Type} {P : Request → Prop} {a b : Request → Run Value}
    (hab : ∀ r, P r → Below (a r) (b r)) (level : Nat) (s : Script α) (hs : s.Asks P) :
    Below (s.run a level) (s.run b level) := by
  induction s with
  | done _ | fail _ => exact .refl _
  | ask r next ih => exact (hab r hs.1).attempt.bind fun x => ih x (hs.2 x)
  | print text next ih => exact Below.bind_right _ fun _ => ih hs
  | mint next ih => exact Below.bind_right _ fun n => ih n (hs n)
  | depth next ih => exact ih level (hs level)

theorem Script.asks_any {α : Type} (s : Script α) : s.Asks fun _ => True := by
  induction s with
  | done _ | fail _ => trivial
  | ask r next ih => exact ⟨trivial, ih⟩
  | print text next ih => exact ih
  | mint next ih | depth next ih => exact ih

/-! ## Graphs -/

section Graphs

variable {a b : Request → Run Value}

/-- Graphs keep the order. -/
theorem Graph.run_below (hab : ∀ r, Below (a r) (b r)) (g : Graph) (unit depth : Nat)
    (parent : Option Nat) (args : List Value) :
    Below (g.run a unit depth parent args) (g.run b unit depth parent args) :=
  g.run_congr (fun _ _ => trivial) congruence_below hab unit depth parent args

theorem Program.run_below (hab : ∀ r, Below (a r) (b r)) (p : Program) :
    Below (p.run a) (p.run b) := p.run_congr (fun _ _ => trivial) congruence_below hab

end Graphs

/-! ## Answers -/

namespace Host

theorem answer_le_succ (h : Host) (fuel depth : Nat) (r : Request) :
    Below (h.answer fuel depth r) (h.answer (fuel + 1) depth r) := by
  induction fuel generalizing depth r with
  | zero => exact exhausted_below _
  | succ fuel ih =>
    have script (s : Script Value) :
        Below (s.run (h.answer fuel depth) depth) (s.run (h.answer (fuel + 1) depth) depth) :=
      s.run_below (fun r _ => ih depth r) depth s.asks_any
    cases r with
    | call f args =>
      cases f with
      | native n => exact Below.bind_right _ fun _ => script _
      | method identity receiver m => exact Below.bind_right _ fun _ => script _
      | closure identity c =>
        rw [answer_closure, answer_closure]
        split
        · split
          · exact .refl _
          · exact c.graph.run_below (ih (depth + 1)) _ _ _ _
        · exact .refl _
    | load target =>
      cases hl : h.loader? with
      | none =>
        rw [answer, answer, hl]
        exact .refl _
      | some loader =>
        cases hp : loader target with
        | value _ | failed _ | dropped =>
          rw [answer, answer, hl]
          simp only [hp]
          exact .refl _
        | program p quiet =>
          intro m
          rw [answer_program hl hp, answer_program hl hp]
          have run : Below (if quiet then quietly (p.run (h.answer fuel 0))
              else p.run (h.answer fuel 0)) (if quiet then quietly (p.run (h.answer (fuel + 1) 0))
              else p.run (h.answer (fuel + 1) 0)) := by
            split
            · exact (p.run_below (ih 0)).quietly
            · exact p.run_below (ih 0)
          rcases run { m with loads := m.loads.push target } with ⟨m', hs⟩ | he
          · rw [hs]
            exact .inl ⟨m', rfl⟩
          · rw [he]
            exact .inr rfl

/-- Answers that may nest more deeply. -/
theorem answer_mono (h : Host) {fuel fuel' : Nat} (hle : fuel ≤ fuel') (depth : Nat)
    (r : Request) : Below (h.answer fuel depth r) (h.answer fuel' depth r) := by
  induction hle with
  | refl => exact .refl _
  | step _ ih => exact ih.trans (h.answer_le_succ _ depth r)

end Host

end Dataflow
