import Dataflow.Proofs.Run.Equations

/-!
# Exact integers

Arithmetic on integers has the mathematical result where that has 64 bits, and is an overflow where it
has not. Two operations overflow although their result has 64 bits: the remainder of the least integer
by -1, and the powers of 0, 1 and -1 with an exponent of more than 32 bits.

* `IntegerOp`: the operations, with their mathematical results (`IntegerOp.result?`) and the scripts
  that carry them out (`IntegerOp.script`);
* `IntegerOp.Exact`: what comes of an exact operation;
* `IntegerOp.compute`: what the scripts compute (`IntegerOp.run_script`);
* **`IntegerOp.gives_exact`**: all operations are exact, but for these two exceptions;
* `IntegerOp.not_always_exact`: the first of them.
-/

namespace Dataflow

open Run

/-! ## Operations and their results -/

/-- The operations on integers: those written between two numbers or before one, and two functions of
the `math` library. -/
inductive IntegerOp where
  | add
  | sub
  | mul
  | div
  | rem
  | neg
  | abs
  | pow
  deriving DecidableEq

/-- The integers of the language. -/
def HasWord (n : Int) : Prop := ∃ k : Int64, k.toInt = n

namespace IntegerOp

/-- The name an operation is written with, also in messages. -/
def name : IntegerOp → String
  | add => "+"
  | sub | neg => "-"
  | mul => "*"
  | div => "/"
  | rem => "%"
  | abs => "abs"
  | pow => "pow"

/-- The mathematical result, if there is one: quotients are rounded toward zero, remainders have the
sign of the dividend. Only the powers with an exponent that is not negative are integers. -/
def result? : IntegerOp → Int → Int → Option Int
  | add, a, b => some (a + b)
  | sub, a, b => some (a - b)
  | mul, a, b => some (a * b)
  | div, a, b => if b = 0 then none else some (a.tdiv b)
  | rem, a, b => if b = 0 then none else some (a.tmod b)
  | neg, a, _ => some (-a)
  | abs, a, _ => some |a|
  | pow, a, b => some (a ^ b.toNat)

/-- The operation as a program carries it out: selects the method or the function, and calls it. -/
def script (identity : Nat) (a b : Int64) : IntegerOp → Script Value
  | neg => (Value.int a).callMethod "-" .unary []
  | abs => (Value.mathLibrary identity).callMethod "abs" .member [.int a]
  | pow => (Value.mathLibrary identity).callMethod "pow" .member [.int a, .int b]
  | op => (Value.int a).callMethod op.name .binary [.int b]

/-- What comes of an exact operation: the mathematical result if it has 64 bits, and otherwise an
overflow; a division by zero if there is no result. -/
inductive Exact (op : IntegerOp) (a b : Int64) : Except RunError Value → Prop where
  | fits {n : Int} (k : Int64) (hn : op.result? a.toInt b.toInt = some n) (hk : k.toInt = n) :
    Exact op a b (.ok (.int k))
  | overflow {n : Int} (hn : op.result? a.toInt b.toInt = some n) (hw : ¬ HasWord n) :
    Exact op a b (.error (.overflow op.name))
  | byZero (hn : op.result? a.toInt b.toInt = none) : Exact op a b (.error .divisionByZero)

end IntegerOp

/-- On every machine the computation ends with a result of which `P` holds, and nothing is changed but
that identities may have been given out. -/
def Run.Gives (x : Run Value) (P : Except RunError Value → Prop) : Prop :=
  ∀ m : Machine, ∃ r n, P r ∧ Yields (x m) r { m with identities := m.identities + n }

/-! ## Integers of 64 bits -/

theorem toInt_bounds (a : Int64) : minInt ≤ a.toInt ∧ a.toInt ≤ maxInt := by
  have hl := a.le_toInt
  have hu := a.toInt_lt
  unfold minInt maxInt
  omega

theorem toInt_ofInt_of_bounds {n : Int} (h : minInt ≤ n ∧ n ≤ maxInt) : (Int64.ofInt n).toInt = n := by
  unfold minInt maxInt at h
  exact Int64.toInt_ofInt_of_le (by omega) (by omega)

theorem hasWord_iff {n : Int} : HasWord n ↔ minInt ≤ n ∧ n ≤ maxInt :=
  ⟨fun ⟨k, hk⟩ => hk ▸ toInt_bounds k, fun h => ⟨_, toInt_ofInt_of_bounds h⟩⟩

theorem toInt_eq_zero_iff {a : Int64} : a.toInt = 0 ↔ a = 0 :=
  ⟨fun h => Int64.toInt_inj.mp h, fun h => h ▸ rfl⟩

/-- A power of a number beyond 1 and -1 grows out of 64 bits. -/
theorem not_hasWord_pow {a : Int} {n : Nat} (ha : 2 ≤ a.natAbs) (hn : 64 ≤ n) : ¬ HasWord (a ^ n) := by
  have hgrow : 2 ^ 64 ≤ (a ^ n).natAbs := calc
    2 ^ 64 ≤ 2 ^ n := Nat.pow_le_pow_right (by decide) hn
    _ ≤ a.natAbs ^ n := Nat.pow_le_pow_left ha n
    _ = (a ^ n).natAbs := (Int.natAbs_pow a n).symm
  rw [hasWord_iff]
  unfold minInt maxInt
  omega

/-! ## What is computed -/

namespace IntegerOp

/-- What the operations compute. -/
def compute (a b : Int64) : IntegerOp → Except RunError Value
  | add => checked "+" (a.toInt + b.toInt)
  | sub => checked "-" (a.toInt - b.toInt)
  | mul => checked "*" (a.toInt * b.toInt)
  | div => intDiv a b
  | rem => intRem a b
  | neg => checked "-" (-a.toInt)
  | abs => checked "abs" a.toInt.natAbs
  | pow => intPow a b

variable {op : IntegerOp} {a b : Int64}

/-- A checked result is exact. -/
theorem exact_checked (op : IntegerOp) {n : Int} (hn : op.result? a.toInt b.toInt = some n) :
    op.Exact a b (checked op.name n) := by
  unfold checked
  split
  case isTrue h => exact .fits _ hn (toInt_ofInt_of_bounds h)
  case isFalse h => exact .overflow hn (mt hasWord_iff.mp h)

theorem exact_intDiv : div.Exact a b (intDiv a b) := by
  unfold intDiv
  by_cases hb : b = 0
  · rw [if_pos hb]
    exact .byZero (if_pos (toInt_eq_zero_iff.mpr hb))
  · rw [if_neg hb]
    exact exact_checked div (if_neg (mt toInt_eq_zero_iff.mp hb))

theorem exact_intRem (h : ¬ (a.toInt = minInt ∧ b.toInt = -1)) : rem.Exact a b (intRem a b) := by
  unfold intRem
  by_cases hb : b = 0
  · rw [if_pos hb]
    exact .byZero (if_pos (toInt_eq_zero_iff.mpr hb))
  · rw [if_neg hb, if_neg h]
    exact exact_checked rem (if_neg (mt toInt_eq_zero_iff.mp hb))

/-- Past an exponent of 63 only the powers of 0, 1 and -1 have 64 bits. -/
theorem exact_pow_large (hb : 63 < b.toInt) (ha : ¬ (a.toInt = 0 ∨ a.toInt = 1 ∨ a.toInt = -1)) :
    pow.Exact a b (.error (.overflow "pow")) :=
  .overflow rfl (not_hasWord_pow (by omega) (by omega))

theorem exact_pow {n : Int} (hn : a.toInt ^ b.toInt.toNat = n) : pow.Exact a b (checked "pow" n) :=
  exact_checked pow (congrArg some hn)

theorem exact_intPow (h : maxExponent < b.toInt → ¬ (a.toInt = 0 ∨ a.toInt = 1 ∨ a.toInt = -1)) :
    pow.Exact a b (intPow a b) := by
  have hword (k : Int64) : a = k ↔ a.toInt = k.toInt := Int64.toInt_inj.symm
  unfold intPow
  by_cases hmax : maxExponent < b.toInt
  · rw [if_pos hmax]
    exact exact_pow_large (lt_trans (by decide) hmax) (h hmax)
  rw [if_neg hmax]
  by_cases hlarge : 63 < b.toInt
  · rw [if_pos hlarge]
    simp only [hword]
    split_ifs with h0 h1 hn heven
    · exact exact_pow (by rw [h0]; exact zero_pow (by omega))
    · exact exact_pow (by rw [h1]; exact one_pow _)
    · have : Even b.toInt.toNat := by rw [Nat.even_iff]; omega
      exact exact_pow (by rw [hn]; exact this.neg_one_pow)
    · have : Odd b.toInt.toNat := by rw [Nat.odd_iff]; omega
      exact exact_pow (by rw [hn]; exact this.neg_one_pow)
    · exact exact_pow_large hlarge fun hx => hx.elim h0 fun hx => hx.elim h1 hn
  · rw [if_neg hlarge]
    exact exact_pow rfl

/-- What is computed is exact, but for two exceptions. -/
theorem exact_compute (hrem : ¬ (op = rem ∧ a.toInt = minInt ∧ b.toInt = -1))
    (hpow : op = pow → maxExponent < b.toInt → ¬ (a.toInt = 0 ∨ a.toInt = 1 ∨ a.toInt = -1)) :
    op.Exact a b (op.compute a b) := by
  cases op with
  | add => exact exact_checked add rfl
  | sub => exact exact_checked sub rfl
  | mul => exact exact_checked mul rfl
  | neg => exact exact_checked neg rfl
  | abs => exact exact_checked abs (congrArg some (Int.abs_eq_natAbs a.toInt))
  | div => exact exact_intDiv
  | rem => exact exact_intRem fun hx => hrem ⟨rfl, hx⟩
  | pow => exact exact_intPow (hpow rfl)

theorem compute_rem_least (ha : a.toInt = minInt) (hb : b.toInt = -1) :
    rem.compute a b = .error (.overflow "%") := by
  have h0 : b ≠ 0 := fun h => by rw [h] at hb; exact absurd hb (by decide)
  exact (if_neg h0).trans (if_pos ⟨ha, hb⟩)

/-! ## What programs carry out -/

/-- The method of an integer is found, and called with its arguments. -/
theorem callMethod_int {name : String} {form : Form} {m : Method} (args : List Value)
    (hm : Method.find? Method.ofNumbers name = some m) (hf : m.forms.admits form = true) :
    (Value.int a).callMethod name form args =
      .mint fun i => .request (.call (.method i (.int a) m) args) := by
  simp only [Value.callMethod, Value.select, Value.field, Value.staticField, Value.type,
    Method.ofType, hm, Value.bindMethod, Script.identity, Script.bind_eq, Script.pure_eq, Script.bind,
    Function.forms, hf, if_true]
  rfl

/-- Calls the method of an integer and ends with what it computes. -/
theorem run_method {name : String} {form : Form} {m : Method} {args : List Value}
    {r : Except RunError Value} (hm : Method.find? Method.ofNumbers name = some m)
    (hf : m.forms.admits form = true) (hc : ∀ function, m.signature.check function args = .ok ())
    (hr : m.script (.int a) args = .ofExcept r) (h : Host) (fuel depth : Nat) (mach : Machine) :
    Yields (((Value.int a).callMethod name form args).run (h.answer (fuel + 1) depth) depth mach) r
      { mach with identities := mach.identities + 1 } := by
  rw [callMethod_int args hm hf]
  show Yields ((Script.request (.call (.method mach.identities (.int a) m) args)).run
    (h.answer (fuel + 1) depth) depth { mach with identities := mach.identities + 1 }) r _
  rw [Script.run_request, Host.answer, hc, hr]
  cases r with
  | ok v => exact .ok v _
  | error e => exact .error e _

/-- Calls a function of the `math` library and ends with what it computes. -/
theorem run_function {identity : Nat} {f : Builtin} {args : List Value} {r : Except RunError Value}
    (hf : (Value.mathLibrary identity).callMethod f.name .member args =
      Script.request (.call (.native f.native) args))
    (hc : ∀ function, f.signature.check function args = .ok ()) (hr : f.script args = .ofExcept r)
    (h : Host) (fuel depth : Nat) (mach : Machine) :
    Yields (((Value.mathLibrary identity).callMethod f.name .member args).run
      (h.answer (fuel + 1) depth) depth mach) r mach := by
  have hn : f.native.signature.check f.native.name args = .ok () := hc _
  have hs : h.scriptOf f.native args = .ofExcept r := hr
  rw [hf, Script.run_request, Host.answer, hn, hs]
  cases r with
  | ok v => exact .ok v _
  | error e => exact .error e _

/-- The scripts end with what is computed. -/
theorem run_script (hb : op = pow → 0 ≤ b.toInt) (h : Host) (fuel depth identity : Nat)
    (m : Machine) : ∃ n, Yields ((op.script identity a b).run (h.answer (fuel + 1) depth) depth m)
      (op.compute a b) { m with identities := m.identities + n } := by
  cases op with
  | add => exact ⟨1, run_method (m := .add) rfl rfl (fun _ => rfl) rfl h fuel depth m⟩
  | sub => exact ⟨1, run_method (m := .sub) rfl rfl (fun _ => rfl) rfl h fuel depth m⟩
  | mul => exact ⟨1, run_method (m := .mul) rfl rfl (fun _ => rfl) rfl h fuel depth m⟩
  | div => exact ⟨1, run_method (m := .div) rfl rfl (fun _ => rfl) rfl h fuel depth m⟩
  | rem => exact ⟨1, run_method (m := .rem) rfl rfl (fun _ => rfl) rfl h fuel depth m⟩
  | neg => exact ⟨1, run_method (m := .sub) rfl rfl (fun _ => rfl) rfl h fuel depth m⟩
  | abs => exact ⟨0, run_function (f := .abs) rfl (fun _ => rfl) rfl h fuel depth m⟩
  | pow =>
    have hr : Builtin.pow.script [.int a, .int b] = .ofExcept (intPow a b) := if_pos (hb rfl)
    exact ⟨0, run_function (f := .pow) rfl (fun _ => rfl) hr h fuel depth m⟩

theorem gives_of_compute (hb : op = pow → 0 ≤ b.toInt) {P : Except RunError Value → Prop}
    (hP : P (op.compute a b)) (h : Host) (fuel depth identity : Nat) :
    ((op.script identity a b).run (h.answer (fuel + 1) depth) depth).Gives P := fun m =>
  have ⟨n, hy⟩ := run_script hb h fuel depth identity m
  ⟨_, n, hP, hy⟩

/-- **Arithmetic on integers is exact.** The remainder of the least integer by -1 is an overflow, as the
quotient is; nothing is said about powers of 0, 1 and -1 with an exponent of more than 32 bits. -/
theorem gives_exact (h : Host) (fuel depth identity : Nat) (op : IntegerOp) (a b : Int64)
    (hb : op = pow → 0 ≤ b.toInt)
    (hpow : op = pow → maxExponent < b.toInt → ¬ (a.toInt = 0 ∨ a.toInt = 1 ∨ a.toInt = -1)) :
    ((op.script identity a b).run (h.answer (fuel + 1) depth) depth).Gives fun r =>
      if op = rem ∧ a.toInt = minInt ∧ b.toInt = -1 then r = .error (.overflow "%")
      else op.Exact a b r := by
  refine gives_of_compute hb ?_ h fuel depth identity
  split
  case isTrue hrem =>
    obtain ⟨rfl, ha, hb⟩ := hrem
    exact compute_rem_least ha hb
  case isFalse hrem => exact exact_compute hrem hpow

/-- The least integer is a power. -/
theorem gives_exact_least :
    (pow = pow → 0 ≤ (63 : Int64).toInt) ∧
      (pow = pow → maxExponent < (63 : Int64).toInt →
        ¬ ((-2 : Int64).toInt = 0 ∨ (-2 : Int64).toInt = 1 ∨ (-2 : Int64).toInt = -1)) ∧
      pow.result? (-2) 63 = some minInt ∧
      ((pow.script 0 (-2) 63).run ((⟨⟨1000, .sequential⟩, #[], none⟩ : Host).answer 1 0) 0).Gives fun r =>
        if pow = rem ∧ (-2 : Int64).toInt = minInt ∧ (63 : Int64).toInt = -1 then
          r = .error (.overflow "%")
        else pow.Exact (-2) 63 r := by
  have hb : 0 ≤ (63 : Int64).toInt := by decide
  have hpow : ¬ ((-2 : Int64).toInt = 0 ∨ (-2 : Int64).toInt = 1 ∨ (-2 : Int64).toInt = -1) := by
    decide
  exact ⟨fun _ => hb, fun _ _ => hpow, by decide,
    gives_exact ⟨⟨1000, .sequential⟩, #[], none⟩ 0 0 0 pow (-2) 63 (fun _ => hb) fun _ _ => hpow⟩

/-- Not every operation is exact: the least integer leaves no remainder by -1, which has 64 bits. -/
theorem not_always_exact : ¬ ∀ (h : Host) (fuel depth identity : Nat) (op : IntegerOp) (a b : Int64),
    (op = pow → 0 ≤ b.toInt) →
      ((op.script identity a b).run (h.answer (fuel + 1) depth) depth).Gives (op.Exact a b) := by
  intro hall
  have hnone : (rem = pow → 0 ≤ (-1 : Int64).toInt) := nofun
  obtain ⟨r, n, hr, hy⟩ := hall ⟨⟨1000, .sequential⟩, #[], none⟩ 0 0 0 rem Int64.minValue (-1) hnone .blank
  obtain ⟨k, hk⟩ := run_script (a := Int64.minValue) hnone ⟨⟨1000, .sequential⟩, #[], none⟩ 0 0 0 .blank
  obtain ⟨rfl, -⟩ := hy.unique hk
  rw [compute_rem_least rfl rfl] at hr
  cases hr with
  | overflow hn hw =>
    obtain rfl := Option.some.inj hn
    exact hw ⟨0, rfl⟩

end IntegerOp

end Dataflow
