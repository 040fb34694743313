import Dataflow.Proofs.Run.Equations
import Dataflow.Run.Evaluate

/-!
# The errors of functions

A function fails because of what it was given, because of something that it asked for, or with an
error of its own. The built-in functions hand on whatever error they are answered with, and their own
errors never say that something is wrong with a unit.

* `RunError.isInternal`: errors that only a unit that is not well formed can cause;
* `Script.Raises`, `Script.Fails`: the errors a script can end with that it has not been handed;
* `Script.HandsOn`: a script ends with the errors it is answered with;
* `Script.Orderly`: what can be said of every built-in function;
* **`Method.script_orderly`**, **`Builtin.script_orderly`**: methods and functions;
* `Host.scriptOf_fails`, `Host.scriptOf_handsOn`: functions that a host may have added to.
-/

namespace Dataflow

/-- Whether an error says that something is wrong with a unit. -/
def RunError.isInternal : RunError → Bool
  | malformed _ | unavailable _ | emptyBody | fieldNotText _ => true
  | _ => false

/-- Whether an error says what went wrong in a program, and not that something is wrong with its unit
or that it was stopped by a limit. -/
def RunError.isOrdinary (e : RunError) : Bool := !e.isInternal && !e.isLimit

theorem RunError.not_isInternal_of_isOrdinary {e : RunError} (h : e.isOrdinary = true) :
    e.isInternal = false := by
  rw [isOrdinary, Bool.and_eq_true, Bool.not_eq_true'] at h
  exact h.1

theorem RunError.not_isLimit_of_isOrdinary {e : RunError} (h : e.isOrdinary = true) :
    e.isLimit = false := by
  rw [isOrdinary, Bool.and_eq_true, Bool.not_eq_true', Bool.not_eq_true'] at h
  exact h.2

/-- The errors of a result are of a kind. -/
def ErrorsAre {α : Type} (P : RunError → Prop) (x : Except RunError α) : Prop :=
  ∀ e, x = .error e → P e

/-- The errors of a result say what went wrong in a program. -/
abbrev OrdinaryErrors {α : Type} (x : Except RunError α) : Prop := ErrorsAre (·.isOrdinary = true) x

theorem ErrorsAre.mono {α : Type} {P Q : RunError → Prop} (hPQ : ∀ e, P e → Q e)
    {x : Except RunError α} (h : ErrorsAre P x) : ErrorsAre Q x := fun e he => hPQ e (h e he)

/-- A script can end with an error that it has not been answered with. -/
inductive Script.Raises {α : Type} (e : RunError) : Script α → Prop where
  | fail : Raises e (.fail e)
  | ask {next : Except RunError Value → Script α} (r : Request) {x : Except RunError Value}
    (hx : x ≠ .error e) (h : Raises e (next x)) : Raises e (.ask r next)
  | print {next : Script α} (text : String) (h : Raises e next) : Raises e (.print text next)
  | mint {next : Nat → Script α} (n : Nat) (h : Raises e (next n)) : Raises e (.mint next)
  | depth {next : Nat → Script α} (n : Nat) (h : Raises e (next n)) : Raises e (.depth next)

/-- The errors of a script that it has not been answered with are of a kind. -/
def Script.Fails {α : Type} (P : RunError → Prop) (s : Script α) : Prop := ∀ e, s.Raises e → P e

/-- When a script is answered with an error of a kind, it ends with that error. -/
def Script.HandsOn {α : Type} (P : RunError → Prop) : Script α → Prop
  | done _ | fail _ => True
  | ask _ next => (∀ e, P e → next (.error e) = .fail e) ∧ ∀ x, (next x).HandsOn P
  | print _ next => next.HandsOn P
  | mint next | depth next => ∀ n, (next n).HandsOn P

/-- A script hands on every error that it is answered with, and its own errors are ordinary. -/
def Script.Orderly {α : Type} : Script α → Prop
  | done _ => True
  | fail e => e.isOrdinary = true
  | ask _ next => (∀ e, next (.error e) = .fail e) ∧ ∀ v, (next (.ok v)).Orderly
  | print _ next => next.Orderly
  | mint next | depth next => ∀ n, (next n).Orderly

namespace Script

variable {α β : Type} {P Q : RunError → Prop}

/-! ## Errors of scripts -/

theorem fails_fail {e : RunError} (h : P e) : (fail e : Script α).Fails P := by
  rintro _ ⟨⟩
  exact h

theorem fails_done (a : α) : (done a).Fails P := by
  rintro _ ⟨⟩

/-- A script goes on with errors of the same kind if it is not answered with others. -/
theorem Fails.answer {r : Request} {next : Except RunError Value → Script α}
    (h : (ask r next).Fails P) {x : Except RunError Value} (hx : ErrorsAre P x) :
    (next x).Fails P := by
  intro e he
  by_cases hxe : x = .error e
  · exact hx e hxe
  · exact h e (.ask r hxe he)

theorem fails_print {text : String} {next : Script α} :
    (print text next).Fails P ↔ next.Fails P := by
  refine ⟨fun h e hv => h e (.print text hv), fun h e he => ?_⟩
  cases he with
  | print _ hv => exact h e hv

theorem fails_mint {next : Nat → Script α} : (mint next).Fails P ↔ ∀ n, (next n).Fails P := by
  refine ⟨fun h n e hv => h e (.mint n hv), fun h e he => ?_⟩
  cases he with
  | mint n hv => exact h n e hv

theorem fails_depth {next : Nat → Script α} : (depth next).Fails P ↔ ∀ n, (next n).Fails P := by
  refine ⟨fun h n e hv => h e (.depth n hv), fun h e he => ?_⟩
  cases he with
  | depth n hv => exact h n e hv

theorem HandsOn.mono (hPQ : ∀ e, Q e → P e) {s : Script α} (h : s.HandsOn P) : s.HandsOn Q := by
  induction s with
  | done _ | fail _ => trivial
  | ask r next ih => exact ⟨fun e he => h.1 e (hPQ e he), fun x => ih x (h.2 x)⟩
  | print text next ih => exact ih h
  | mint next ih | depth next ih => exact fun n => ih n (h n)

namespace Orderly

theorem request (r : Request) : (request r).Orderly := ⟨fun _ => rfl, fun _ => trivial⟩

theorem bind {s : Script α} {f : α → Script β} (hs : s.Orderly) (hf : ∀ a, (f a).Orderly) :
    (s.bind f).Orderly := by
  induction s with
  | done a => exact hf a
  | fail e => exact hs
  | ask r next ih =>
    exact ⟨fun e => congrArg (Script.bind · f) (hs.1 e), fun v => ih (.ok v) (hs.2 v)⟩
  | print text next ih => exact ih hs
  | mint next ih | depth next ih => exact fun n => ih n (hs n)

theorem ofExcept {x : Except RunError α} (hx : OrdinaryErrors x) :
    (ofExcept x).Orderly := by
  cases x with
  | ok a => trivial
  | error e => exact hx e rfl

theorem handsOn {s : Script α} (h : s.Orderly) (P : RunError → Prop) : s.HandsOn P := by
  induction s with
  | done _ | fail _ => trivial
  | ask r next ih =>
    refine ⟨fun e _ => h.1 e, fun x => ?_⟩
    cases x with
    | ok v => exact ih _ (h.2 v)
    | error e =>
      rw [h.1 e]
      trivial
  | print text next ih => exact ih h
  | mint next ih | depth next ih => exact fun n => ih n (h n)

theorem fails (hP : ∀ e, e.isOrdinary = true → P e) {s : Script α} (h : s.Orderly) : s.Fails P := by
  intro e he
  refine hP e ?_
  induction he with
  | fail => exact h
  | @ask next r x hx hr ih =>
    cases x with
    | ok v => exact ih (h.2 v)
    | error e' =>
      -- the only error that is left is the one that was the answer
      rw [h.1 e'] at hr
      cases hr
      exact absurd rfl hx
  | print text _ ih => exact ih h
  | mint n _ ih | depth n _ ih => exact ih (h n)

end Orderly

end Script

open Script

/-! ## Fields, texts and equality -/

namespace Value

theorem bindMethod_orderly (v : Value) (m : Method) : (v.bindMethod m).Orderly :=
  fun _ => trivial

theorem staticField_orderly (v : Value) (name : String) : (v.staticField name).Orderly := by
  unfold staticField
  split
  · trivial
  · split
    · exact (bindMethod_orderly _ _).bind fun _ => trivial
    · trivial

theorem apply_orderly (v : Value) (args : List Value) : (Script.apply v args).Orderly := by
  cases v with
  | function f | struct f => exact .request _
  | _ => rfl

theorem field_orderly (v : Value) (name : String) : (v.field name).Orderly := by
  unfold field
  split
  · exact .request _
  · refine (staticField_orderly _ name).bind fun field => ?_
    split
    · trivial
    · split
      · exact bindMethod_orderly _ _
      · rw [Orderly]
        unfold missingField
        split <;> rfl

theorem select_orderly (v : Value) (name : String) (form : Form) :
    (v.select name form).Orderly := by
  refine (v.field_orderly name).bind fun field => ?_
  split
  · split
    · trivial
    · rfl
  · trivial

theorem callMethod_orderly (v : Value) (name : String) (form : Form) (args : List Value) :
    (v.callMethod name form args).Orderly :=
  (v.select_orderly name form).bind fun field => field.apply_orderly args

mutual

theorem toText_orderly (v : Value) : v.toText.Orderly := by
  cases v with
  | struct dispatch =>
    rw [toText]
    refine (callMethod_orderly _ _ _ _).bind fun v => ?_
    split
    · trivial
    · rfl
  | tuple items =>
    rw [toText]
    exact (toTexts_orderly items).bind fun _ => trivial
  | _ =>
    simp only [toText]
    trivial

theorem toTexts_orderly (vs : List Value) : (toTexts vs).Orderly := by
  cases vs with
  | nil => trivial
  | cons v vs =>
    rw [toTexts]
    exact (toText_orderly v).bind fun _ => (toTexts_orderly vs).bind fun _ => trivial

end

mutual

theorem equals_orderly (a b : Value) : (a.equals b).Orderly := by
  cases a with
  | struct dispatch =>
    rw [equals]
    refine (callMethod_orderly _ _ _ _).bind fun v => ?_
    split
    · trivial
    · rfl
  | tuple as =>
    cases b with
    | tuple bs =>
      rw [equals]
      split
      · exact equalsAll_orderly as bs
      · trivial
    | _ =>
      simp only [equals]
      trivial
  | _ =>
    simp only [equals]
    trivial

theorem equalsAll_orderly (as bs : List Value) : (equalsAll as bs).Orderly := by
  cases as with
  | nil =>
    rw [equalsAll]
    · trivial
    · simp
  | cons a as =>
    cases bs with
    | nil =>
      rw [equalsAll]
      · trivial
      · simp
    | cons b bs =>
      rw [equalsAll]
      refine (equals_orderly a b).bind fun same => ?_
      split
      · exact equalsAll_orderly as bs
      · trivial

end

end Value

/-! ## Methods -/

theorem errorsAre_ok {α : Type} (a : α) : OrdinaryErrors (.ok a) := by
  rintro e ⟨⟩

theorem checked_errors (operation : String) (n : Int) : OrdinaryErrors (checked operation n) := by
  unfold checked
  intro e he
  split at he
  · cases he
  · cases he
    rfl

theorem intDiv_errors (a b : Int64) : OrdinaryErrors (intDiv a b) := by
  unfold intDiv
  split
  · rintro e ⟨⟩
    rfl
  · exact checked_errors _ _

theorem intRem_errors (a b : Int64) : OrdinaryErrors (intRem a b) := by
  unfold intRem
  split
  · rintro e ⟨⟩
    rfl
  · split
    · rintro e ⟨⟩
      rfl
    · exact checked_errors _ _

theorem intPow_errors (a b : Int64) : OrdinaryErrors (intPow a b) := by
  unfold intPow
  repeat' split
  all_goals first
    | exact checked_errors _ _
    | rintro e ⟨⟩
      rfl

theorem floatDiv_errors (x y : Float) : OrdinaryErrors (floatDiv x y) := by
  unfold floatDiv
  split
  · rintro e ⟨⟩
    rfl
  · exact errorsAre_ok _

theorem floatMod_errors (x y : Float) : OrdinaryErrors (floatMod x y) := by
  unfold floatMod
  split
  · rintro e ⟨⟩
    rfl
  · exact errorsAre_ok _

theorem operands_errors (name : String) (a b : Value) : OrdinaryErrors (operands name a b) := by
  unfold operands
  intro e he
  split at he
  all_goals
    cases he
    try rfl

theorem arithmetic_orderly {name : String} {ints : Int64 → Int64 → Except RunError Value}
    {floats : Float → Float → Except RunError Value} (hi : ∀ a b, OrdinaryErrors (ints a b))
    (hf : ∀ x y, OrdinaryErrors (floats x y)) (a b : Value) :
    (arithmetic name ints floats a b).Orderly := by
  refine .ofExcept fun e he => ?_
  have ho := operands_errors name a b
  cases hx : operands name a b with
  | error e' =>
    rw [hx] at he
    cases he
    exact ho e hx
  | ok x =>
    rw [hx] at he
    cases x with
    | ints a b => exact hi a b e he
    | floats x y => exact hf x y e he

theorem comparison_orderly (name : String)
    (ints : Int64 → Int64 → Bool) (floats : Float → Float → Bool) (a b : Value) :
    (comparison name ints floats a b).Orderly :=
  arithmetic_orderly (fun _ _ => errorsAre_ok _) (fun _ _ => errorsAre_ok _) a b

theorem negative_orderly (v : Value) : (negative v).Orderly := by
  cases v with
  | int a => exact .ofExcept (checked_errors _ _)
  | float x => trivial
  | _ => rfl

theorem logic_orderly (name : String) (f : Bool → Bool → Bool) (a b : Value) :
    (logic name f a b).Orderly := by
  unfold logic
  split
  · trivial
  · rfl
  · rfl

theorem itemAt_orderly (items : List Value) (index : Int64) : (itemAt items index).Orderly := by
  unfold itemAt
  dsimp only
  split
  · trivial
  · rfl

/-- **Methods hand on errors, and fail only because of their operands.** -/
theorem Method.script_orderly (m : Method) (receiver : Value) (args : List Value) :
    (m.script receiver args).Orderly := by
  cases m with
  | add | mul =>
    exact arithmetic_orderly (fun _ _ => checked_errors _ _) (fun _ _ => errorsAre_ok _) _ _
  | sub =>
    unfold script
    dsimp only
    split
    · exact negative_orderly receiver
    · exact arithmetic_orderly (fun _ _ => checked_errors _ _) (fun _ _ => errorsAre_ok _) _ _
  | div => exact arithmetic_orderly intDiv_errors floatDiv_errors _ _
  | rem => exact arithmetic_orderly intRem_errors floatMod_errors _ _
  | lt | gt | le | ge => exact comparison_orderly _ _ _ _ _
  | and | or => exact logic_orderly _ _ _ _
  | text => exact receiver.toText_orderly.bind fun _ => trivial
  | equal | differ => exact (receiver.equals_orderly _).bind fun _ => trivial
  | not | concat | textLength | tupleLength | tupleGet =>
    unfold script
    dsimp only
    split
    all_goals first
      | trivial
      | rfl
      | exact itemAt_orderly _ _

/-! ## Functions -/

theorem spacedText_orderly (args : List Value) : (spacedText args).Orderly :=
  (Value.toTexts_orderly args).bind fun _ => trivial

/-- **Built-in functions hand on errors, and fail only because of their arguments.** -/
theorem Builtin.script_orderly (b : Builtin) (args : List Value) : (b.script args).Orderly := by
  cases b with
  | print | println =>
    exact (spacedText_orderly args).bind fun _ => trivial
  | choose =>
    unfold script
    dsimp only
    split <;> exact Value.apply_orderly _ _
  | load =>
    unfold script
    dsimp only
    split <;> exact .request _
  | struct | tuple | sqrt | abs | floor | pow | min | max =>
    unfold script
    dsimp only
    repeat' split
    all_goals first
      | trivial
      | rfl
      | exact .ofExcept (checked_errors _ _)
      | exact .ofExcept (intPow_errors _ _)

theorem Signature.check_errors (s : Signature) (function : String) (args : List Value) :
    OrdinaryErrors (s.check function args) := by
  unfold Signature.check
  intro e he
  split at he
  · split at he
    · cases he
      rfl
    · cases he
  · cases he
    rfl

/-! ## Functions of a host -/

namespace Host

/-- A function of the host can raise an error. -/
def MayRaise (h : Host) (e : RunError) : Prop :=
  ∃ number args, (h.function number args).Raises e

/-- The functions of the host hand on errors of a kind. -/
def HandsOn (h : Host) (P : RunError → Prop) : Prop :=
  ∀ number args, (h.function number args).HandsOn P

variable {h : Host} {P : RunError → Prop}

theorem scriptOf_handsOn (hh : h.HandsOn P) (n : Native) (args : List Value) :
    (h.scriptOf n args).HandsOn P := by
  unfold scriptOf
  split
  · exact (Builtin.script_orderly _ args).handsOn P
  · exact hh _ args

end Host

end Dataflow
