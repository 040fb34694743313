import Dataflow.Proofs.Run.Equations

/-!
# Equality and text of values

The language compares and prints values by scripts, since structs have to be asked. Where there are
no structs the scripts do not ask anything, and they give what can be computed without running
anything. Where there are structs, tuples are compared leaf by leaf up to the first that differs.

* `Value.contains`: values of a type at any depth of tuples;
* `Value.equals_of_plain`, `toText_of_plain`: equality and text without structs;
* `Value.hostEq_refl`, `hostEq_comm`, `hostEq_trans`: equality is an equivalence;
* `Value.leaves`: what is compared with what, from left to right;
* `Value.equals_eq`: equality leaf by leaf;
* `Script.run_allEqual`: the first leaf that differs or fails is the last one;
* **`Value.equality_agrees`**: the equality and the text of the language.
-/

namespace Dataflow

/-! ## Identity of functions -/

namespace Function

theorem same_refl (f : Function) : f.same f = true := by
  cases f <;> simp [same]

theorem same_comm (f g : Function) : f.same g = g.same f := by
  cases f <;> cases g <;> simp only [same, Bool.beq_comm]

theorem same_trans {f g k : Function} (h : f.same g = true) (h' : g.same k = true) :
    f.same k = true := by
  cases f <;> cases g <;> cases k <;> simp_all [same]

end Function

namespace Value

/-! ## Without structs -/

mutual

/-- Whether a value of a type stands in a value, at any depth of tuples. -/
def contains (t : ValueType) : Value → Bool
  | tuple items => t == .tuple || containsAny t items
  | v => t == v.type

/-- Whether a value of a type stands in one of some values. -/
def containsAny (t : ValueType) : List Value → Bool
  | [] => false
  | v :: vs => v.contains t || containsAny t vs

end

theorem length_eq_of_hostEqAll {as bs : List Value} (h : hostEqAll as bs = true) :
    as.length = bs.length := by
  induction as generalizing bs with
  | nil =>
    cases bs with
    | nil => rfl
    | cons b bs => cases h
  | cons a as ih =>
    cases bs with
    | nil => cases h
    | cons b bs =>
      rw [hostEqAll, Bool.and_eq_true] at h
      rw [List.length_cons, List.length_cons, ih h.2]

mutual

/-- Without structs on the left, equality does not ask anything. -/
theorem equals_of_plain {a : Value} (h : a.contains .struct = false) (b : Value) :
    a.equals b = .done (a.hostEq b) := by
  cases a with
  | struct f => cases h
  | tuple as =>
    cases b with
    | tuple bs =>
      rw [contains] at h
      rw [equals, hostEq]
      split
      case isTrue hl => exact equalsAll_of_plain h hl
      case isFalse hl =>
        rw [Bool.eq_false_iff.mpr fun he => hl (length_eq_of_hostEqAll he)]
        rfl
    | _ => simp only [equals]; rfl
  | _ => simp only [equals]; rfl

theorem equalsAll_of_plain {as bs : List Value} (h : containsAny .struct as = false)
    (hl : as.length = bs.length) : equalsAll as bs = .done (hostEqAll as bs) := by
  cases as with
  | nil =>
    cases bs with
    | nil => simp [equalsAll, hostEqAll]
    | cons b bs => cases hl
  | cons a as =>
    cases bs with
    | nil => cases hl
    | cons b bs =>
      rw [containsAny, Bool.or_eq_false_iff] at h
      rw [equalsAll, equals_of_plain h.1, hostEqAll]
      cases a.hostEq b with
      | false => rfl
      | true => exact equalsAll_of_plain h.2 (Nat.succ.inj hl)

end

mutual

/-- Without structs, text does not ask anything. -/
theorem toText_of_plain {a : Value} (h : a.contains .struct = false) :
    a.toText = .done a.display := by
  cases a with
  | struct f => cases h
  | tuple as =>
    rw [contains] at h
    rw [toText, toTexts_of_plain h, display]
    rfl
  | _ => simp only [toText]; rfl

theorem toTexts_of_plain {as : List Value} (h : containsAny .struct as = false) :
    toTexts as = .done (displayAll as) := by
  cases as with
  | nil => rfl
  | cons a as =>
    rw [containsAny, Bool.or_eq_false_iff] at h
    rw [toTexts, toText_of_plain h.1, toTexts_of_plain h.2, displayAll]
    rfl

end

/-! ## An equivalence

The number that a calculation with floats ends with may be none, which is not equal to itself.
-/

mutual

theorem hostEq_refl {a : Value} (h : a.contains .float = false) : a.hostEq a = true := by
  cases a with
  | float x => cases h
  | tuple as =>
    rw [contains] at h
    rw [hostEq]
    exact hostEqAll_refl h
  | function f => exact f.same_refl
  | struct f => exact f.same_refl
  | _ => simp [hostEq]

theorem hostEqAll_refl {as : List Value} (h : containsAny .float as = false) :
    hostEqAll as as = true := by
  cases as with
  | nil => rfl
  | cons a as =>
    rw [containsAny, Bool.or_eq_false_iff] at h
    rw [hostEqAll, hostEq_refl h.1, hostEqAll_refl h.2]
    rfl

end

mutual

theorem hostEq_comm {a : Value} (h : a.contains .float = false) (b : Value) :
    a.hostEq b = b.hostEq a := by
  cases a with
  | float x => cases h
  | tuple as =>
    cases b with
    | tuple bs =>
      rw [contains] at h
      rw [hostEq, hostEq]
      exact hostEqAll_comm h bs
    | _ => rfl
  | function f =>
    cases b with
    | function g => exact f.same_comm g
    | _ => rfl
  | struct f =>
    cases b with
    | struct g => exact f.same_comm g
    | _ => rfl
  | _ => cases b <;> first | rfl | simp only [hostEq, Bool.beq_comm]

theorem hostEqAll_comm {as : List Value} (h : containsAny .float as = false) (bs : List Value) :
    hostEqAll as bs = hostEqAll bs as := by
  cases as with
  | nil => cases bs <;> rfl
  | cons a as =>
    cases bs with
    | nil => rfl
    | cons b bs =>
      rw [containsAny, Bool.or_eq_false_iff] at h
      rw [hostEqAll, hostEqAll, hostEq_comm h.1, hostEqAll_comm h.2]

end

mutual

theorem hostEq_trans {a b c : Value} (h : a.contains .float = false) (hab : a.hostEq b = true)
    (hbc : b.hostEq c = true) : a.hostEq c = true := by
  cases a with
  | float x => cases h
  | tuple as =>
    cases b with
    | tuple bs =>
      cases c with
      | tuple cs =>
        rw [contains] at h
        rw [hostEq] at hab hbc ⊢
        exact hostEqAll_trans h hab hbc
      | _ => cases hbc
    | _ => cases hab
  | function f =>
    cases b with
    | function g =>
      cases c with
      | function k => exact Function.same_trans hab hbc
      | _ => cases hbc
    | _ => cases hab
  | struct f =>
    cases b with
    | struct g =>
      cases c with
      | struct k => exact Function.same_trans hab hbc
      | _ => cases hbc
    | _ => cases hab
  | unit =>
    cases b with
    | unit => exact hbc
    | _ => cases hab
  | bool x =>
    cases b with
    | bool y =>
      obtain rfl := eq_of_beq (show (x == y) = true from hab)
      exact hbc
    | _ => cases hab
  | int x =>
    cases b with
    | int y =>
      obtain rfl := eq_of_beq (show (x == y) = true from hab)
      exact hbc
    | _ => cases hab
  | str x =>
    cases b with
    | str y =>
      obtain rfl := eq_of_beq (show (x == y) = true from hab)
      exact hbc
    | _ => cases hab
  | library i name symbols =>
    cases b with
    | library j name' symbols' =>
      obtain rfl := eq_of_beq (show (i == j) = true from hab)
      cases c with
      | library k name'' symbols'' => exact hbc
      | _ => cases hbc
    | _ => cases hab

theorem hostEqAll_trans {as bs cs : List Value} (h : containsAny .float as = false)
    (hab : hostEqAll as bs = true) (hbc : hostEqAll bs cs = true) : hostEqAll as cs = true := by
  cases as with
  | nil =>
    cases bs with
    | nil => exact hbc
    | cons b bs => cases hab
  | cons a as =>
    cases bs with
    | nil => cases hab
    | cons b bs =>
      cases cs with
      | nil => cases hbc
      | cons c cs =>
        rw [containsAny, Bool.or_eq_false_iff] at h
        rw [hostEqAll, Bool.and_eq_true] at hab hbc ⊢
        exact ⟨hostEq_trans h.1 hab.1 hbc.1, hostEqAll_trans h.2 hab.2 hbc.2⟩

end

/-! ## Leaf by leaf -/

mutual

/-- What is compared with what, from left to right: tuples of the same length item by item. -/
def leaves : Value → Value → List (Value × Value)
  | tuple as, tuple bs => if as.length = bs.length then leavesAll as bs else [(tuple as, tuple bs)]
  | a, b => [(a, b)]

/-- What is compared with what in lists. -/
def leavesAll : List Value → List Value → List (Value × Value)
  | a :: as, b :: bs => leaves a b ++ leavesAll as bs
  | _, _ => []

end

end Value

/-- Compares one pair after the other; the first that differs ends it. -/
def Script.allEqual : List (Value × Value) → Script Bool
  | [] => .done true
  | (a, b) :: pairs => do if ← a.equals b then allEqual pairs else return false

namespace Script

theorem bind_done {α : Type} (s : Script α) : s.bind done = s := by
  induction s with
  | done a => rfl
  | fail e => rfl
  | ask r next ih => simp only [bind, ih]
  | print text next ih => simp only [bind, ih]
  | mint next ih => simp only [bind, ih]
  | depth next ih => simp only [bind, ih]

theorem bind_assoc {α β γ : Type} (s : Script α) (f : α → Script β) (g : β → Script γ) :
    (s.bind f).bind g = s.bind fun a => (f a).bind g := by
  induction s with
  | done a => rfl
  | fail e => rfl
  | ask r next ih => simp only [bind, ih]
  | print text next ih => simp only [bind, ih]
  | mint next ih => simp only [bind, ih]
  | depth next ih => simp only [bind, ih]

theorem allEqual_singleton (a b : Value) : allEqual [(a, b)] = a.equals b := by
  have hsame : (fun r => if r = true then allEqual [] else (done false : Script Bool)) = done := by
    funext r
    cases r <;> rfl
  rw [allEqual, bind_eq]
  exact (congrArg _ hsame).trans (bind_done _)

theorem allEqual_append (before after : List (Value × Value)) :
    allEqual (before ++ after) =
      (allEqual before).bind fun r => if r then allEqual after else done false := by
  induction before with
  | nil => rfl
  | cons p before ih =>
    obtain ⟨a, b⟩ := p
    rw [List.cons_append, allEqual, allEqual, bind_eq, bind_eq, Script.bind_assoc]
    refine congrArg _ (funext fun r => ?_)
    cases r with
    | false => rfl
    | true => exact ih

variable {answer : Request → Run Value} {level : Nat} {m m' m'' : Machine}
  {before after : List (Value × Value)} {a b : Value}

/-- **The first pair that does not turn out equal is the last one**: however calls are answered,
nothing is asked after it. -/
theorem run_allEqual (h : (allEqual before).run answer level m = .ok true m')
    {r : EStateM.Result Stop Machine Bool} (hab : (a.equals b).run answer level m' = r)
    (hr : ∀ m'', r ≠ .ok true m'') :
    (allEqual (before ++ (a, b) :: after)).run answer level m = r := by
  rw [allEqual_append, run_bind, Run.bind_ok h, if_pos rfl, allEqual, bind_eq, run_bind]
  cases r with
  | error e m'' => rw [Run.bind_error hab]
  | ok equal m'' =>
    cases equal with
    | true => exact absurd rfl (hr m'')
    | false => rw [Run.bind_ok hab]; rfl

end Script

namespace Value

mutual

/-- Values are compared leaf by leaf. -/
theorem equals_eq (a b : Value) : a.equals b = Script.allEqual (a.leaves b) := by
  have single := (Script.allEqual_singleton a b).symm
  cases a with
  | tuple as =>
    cases b with
    | tuple bs =>
      rw [leaves]
      split
      case isTrue hl =>
        rw [equals, if_pos hl]
        exact equalsAll_eq as bs
      case isFalse => exact single
    | _ => exact single
  | _ => exact single

theorem equalsAll_eq (as bs : List Value) : equalsAll as bs = Script.allEqual (leavesAll as bs) := by
  cases as with
  | nil => simp [equalsAll, leavesAll, Script.allEqual]
  | cons a as =>
    cases bs with
    | nil => simp [equalsAll, leavesAll, Script.allEqual]
    | cons b bs =>
      rw [equalsAll, leavesAll, Script.allEqual_append, equals_eq a b, equalsAll_eq as bs]
      rfl

end

mutual

/-- Of what is compared, only a struct on the left is asked. -/
theorem asked_or_done {a b : Value} {p : Value × Value} (h : p ∈ a.leaves b) :
    (∃ f, p.1 = .struct f) ∨ p.1.equals p.2 = .done (p.1.hostEq p.2) := by
  cases a with
  | struct f =>
    cases List.mem_singleton.mp h
    exact .inl ⟨f, rfl⟩
  | tuple as =>
    cases b with
    | tuple bs =>
      rw [leaves] at h
      split at h
      case isTrue => exact asked_or_done_of_all h
      case isFalse hl =>
        cases List.mem_singleton.mp h
        refine .inr ?_
        rw [equals, if_neg hl, hostEq, Bool.eq_false_iff.mpr fun he => hl (length_eq_of_hostEqAll he)]
        rfl
    | _ =>
      cases List.mem_singleton.mp h
      exact .inr (by simp only [equals]; rfl)
  | _ =>
    cases List.mem_singleton.mp h
    exact .inr (by simp only [equals]; rfl)

theorem asked_or_done_of_all {as bs : List Value} {p : Value × Value} (h : p ∈ leavesAll as bs) :
    (∃ f, p.1 = .struct f) ∨ p.1.equals p.2 = .done (p.1.hostEq p.2) := by
  cases as with
  | nil => simp [leavesAll] at h
  | cons a as =>
    cases bs with
    | nil => simp [leavesAll] at h
    | cons b bs =>
      obtain h | h := List.mem_append.mp h
      · exact asked_or_done h
      · exact asked_or_done_of_all h

end

/-- **Equality and text in the language.** Without structs at any depth of tuples they are what can
be computed without running anything: nothing is asked, nothing printed, and nothing fails. Without
floats as well, equality is an equivalence. With structs, values are compared leaf by leaf from left
to right, only a struct on the left is asked, and after the first leaf that differs or fails nothing
is asked any more: the answer and the machine are those that this leaf leaves behind. -/
theorem equality_agrees :
    (∀ a : Value, a.contains .struct = false →
      a.toText = .done a.display ∧ ∀ b : Value, a.equals b = .done (a.hostEq b)) ∧
    (∀ a b c : Value, (∀ v ∈ [a, b, c], v.contains .struct = false ∧ v.contains .float = false) →
      a.equals a = .done true ∧ a.equals b = b.equals a ∧
      (a.equals b = .done true → b.equals c = .done true → a.equals c = .done true)) ∧
    ∀ a b : Value, a.equals b = Script.allEqual (a.leaves b) ∧
      (∀ p ∈ a.leaves b, (∃ f, p.1 = .struct f) ∨ p.1.equals p.2 = .done (p.1.hostEq p.2)) ∧
      ∀ (answer : Request → Run Value) (level : Nat) (m m' : Machine)
        (before after : List (Value × Value)) (x y : Value) (r : EStateM.Result Stop Machine Bool),
        a.leaves b = before ++ (x, y) :: after →
        (Script.allEqual before).run answer level m = .ok true m' →
        (x.equals y).run answer level m' = r → (∀ m'', r ≠ .ok true m'') →
        (a.equals b).run answer level m = r := by
  refine ⟨fun a h => ⟨toText_of_plain h, equals_of_plain h⟩, fun a b c h => ?_, fun a b =>
    ⟨equals_eq a b, fun p hp => asked_or_done hp, ?_⟩⟩
  · simp only [List.forall_mem_cons] at h
    obtain ⟨⟨ha, haf⟩, ⟨hb, -⟩, -⟩ := h
    simp only [equals_of_plain ha, equals_of_plain hb]
    refine ⟨by rw [hostEq_refl haf], by rw [hostEq_comm haf], fun hab hbc => ?_⟩
    rw [hostEq_trans haf (Script.done.inj hab) (Script.done.inj hbc)]
  · intro answer level m m' before after x y r hl hbefore hxy hr
    rw [equals_eq, hl]
    exact Script.run_allEqual hbefore hxy hr

/-- Finds the method `==` for whoever is asked, and finds nothing equal; what is asked is printed. -/
def unequal : Request → Run Value
  | .call _ [.str name] => do
    Run.print name
    return .function (.method 0 .unit .equal)
  | _ => do
    Run.print "call"
    return .bool false

/-- Of two structs that would differ from their partners, the first one alone is asked. -/
theorem equality_agrees_structs :
    (Value.equals
      (.tuple [.int 1, .tuple [.struct (.native Builtin.tuple.native)],
        .struct (.native Builtin.tuple.native)])
      (.tuple [.int 1, .tuple [.unit], .unit])).run unequal 0 default =
    .ok false { (default : Machine) with printed := #["==", "call"] } :=
  (equality_agrees.2.2 _ _).2.2 unequal 0 default default [(.int 1, .int 1)]
    [(.struct (.native Builtin.tuple.native), .unit)] (.struct (.native Builtin.tuple.native)) .unit
    _ rfl rfl rfl (by simp)

end Value

end Dataflow
