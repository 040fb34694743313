import Dataflow.Proofs.Run.Equations

/-!
# Built-in functions behind their signatures

The arguments of a built-in function are checked before it sees them, and a method sees the value it
was selected from in front of them. What a function does with a missing argument or with one of a
kind it does not expect therefore never matters: it does what it would do if it had nothing to say
about such arguments.

* `Signature.InRange`, `FirstBad`: the number of arguments and the first one not of its kind;
* `Signature.check_eq_wrongCount_iff`, `check_eq_wrongKind_iff`: what the check answers, and when;
* `Method.body?`, `Builtin.body?`: the functions, undefined where an argument is missing or not of
  the expected kind;
* `Method.body?_of_check`, `Builtin.body?_of_check`: behind the check they are defined;
* `Function.Obtainable`: functions that are found by name or selected from a value;
* **`Function.Obtainable.refused_or_runs`**: calls of such functions.
-/

namespace Dataflow

/-! ## The check -/

namespace Signature

variable {s : Signature} {function : String} {args : List Value} {index : Nat} {kind : Kind}
  {type : ValueType}

/-- No fewer arguments than required, and no more than there are parameters for. -/
def InRange (s : Signature) (args : List Value) : Prop :=
  s.required ≤ args.length ∧ (s.rest = none → args.length ≤ s.params.length)

/-- The argument at an index is of its kind, if there is one. -/
def AdmitsAt (s : Signature) (args : List Value) (index : Nat) : Prop :=
  ∀ v kind, args[index]? = some v → s.kindAt index = some kind → kind.admits v.type = true

/-- The argument at an index has a type that its kind does not admit, and is the first such one. -/
structure FirstBad (s : Signature) (args : List Value) (index : Nat) (kind : Kind)
    (type : ValueType) : Prop where
  given : (args[index]?).map Value.type = some type
  expected : s.kindAt index = some kind
  bad : kind.admits type = false
  first : ∀ j < index, s.AdmitsAt args j

theorem acceptsCount_iff : s.acceptsCount args.length = true ↔ s.InRange args := by
  cases hr : s.rest <;> simp [acceptsCount, InRange, hr]

/-- The search passes over an argument of its kind. -/
theorem firstBad_drop_of_admitsAt (h : s.AdmitsAt args index) :
    s.firstBad index (args.drop index) = s.firstBad (index + 1) (args.drop (index + 1)) := by
  by_cases hl : index < args.length
  · rw [List.drop_eq_getElem_cons hl, firstBad]
    cases hk : s.kindAt index with
    | none => rfl
    | some kind => exact if_pos (h _ kind (List.getElem?_eq_getElem hl) hk)
  · rw [List.drop_eq_nil_of_le (by omega), List.drop_eq_nil_of_le (by omega)]
    rfl

theorem firstBad_eq_drop {n : Nat} (h : ∀ j < n, s.AdmitsAt args j) :
    s.firstBad 0 args = s.firstBad n (args.drop n) := by
  induction n with
  | zero => rfl
  | succ n ih =>
    rw [ih fun j hj => h j (by omega), firstBad_drop_of_admitsAt (h n (by omega))]

theorem firstBad_of_admits (h : ∀ j, s.AdmitsAt args j) : s.firstBad 0 args = none := by
  rw [firstBad_eq_drop (n := args.length) fun j _ => h j, List.drop_length]
  rfl

theorem FirstBad.firstBad_eq (h : s.FirstBad args index kind type) :
    s.firstBad 0 args = some (index, kind, type) := by
  obtain ⟨v, hv, rfl⟩ := Option.map_eq_some_iff.mp h.given
  obtain ⟨hl, rfl⟩ := List.getElem?_eq_some_iff.mp hv
  rw [firstBad_eq_drop h.first, List.drop_eq_getElem_cons hl, firstBad, h.expected]
  exact if_neg (by simp [h.bad])

theorem exists_firstBad (h : ¬ ∀ j, s.AdmitsAt args j) :
    ∃ index kind type, s.FirstBad args index kind type := by
  classical
  obtain ⟨index, hbad, hfirst⟩ : ∃ j, ¬ s.AdmitsAt args j ∧ ∀ i < j, s.AdmitsAt args i := by
    have hex : ∃ j, ¬ s.AdmitsAt args j := not_forall.mp h
    exact ⟨Nat.find hex, Nat.find_spec hex, fun i hi => not_not.mp (Nat.find_min hex hi)⟩
  simp only [AdmitsAt, not_forall] at hbad
  obtain ⟨v, kind, hv, hk, hb⟩ := hbad
  exact ⟨index, kind, v.type, by rw [hv]; rfl, hk, by simpa using hb, hfirst⟩

theorem firstBad_eq_none_iff : s.firstBad 0 args = none ↔ ∀ j, s.AdmitsAt args j := by
  refine ⟨fun h => ?_, firstBad_of_admits⟩
  by_contra hn
  obtain ⟨index, kind, type, hf⟩ := exists_firstBad hn
  rw [hf.firstBad_eq] at h
  cases h

theorem firstBad_eq_some_iff :
    s.firstBad 0 args = some (index, kind, type) ↔ s.FirstBad args index kind type := by
  refine ⟨fun h => ?_, FirstBad.firstBad_eq⟩
  by_cases hn : ∀ j, s.AdmitsAt args j
  · rw [firstBad_of_admits hn] at h
    cases h
  · obtain ⟨i, k, t, hf⟩ := exists_firstBad hn
    rw [hf.firstBad_eq] at h
    cases h
    exact hf

theorem check_eq_wrongCount_iff :
    s.check function args = .error (.wrongCount function s.arity args.length) ↔
      ¬ s.InRange args := by
  rw [check, ← acceptsCount_iff]
  split
  case isTrue hc =>
    simp only [hc]
    cases s.firstBad 0 args <;> simp
  case isFalse hc => simp [hc]

theorem check_eq_wrongKind_iff :
    s.check function args = .error (.wrongKind function index kind type) ↔
      s.InRange args ∧ s.FirstBad args index kind type := by
  rw [check, ← acceptsCount_iff, ← firstBad_eq_some_iff]
  split
  case isTrue hc =>
    simp only [hc, true_and]
    cases hb : s.firstBad 0 args with
    | none => simp
    | some bad => simp [Prod.ext_iff]
  case isFalse hc => simp [hc]

theorem check_eq_ok_iff :
    s.check function args = .ok () ↔ s.InRange args ∧ ∀ index, s.AdmitsAt args index := by
  rw [check, ← acceptsCount_iff, ← firstBad_eq_none_iff]
  split
  case isTrue hc =>
    simp only [hc, true_and]
    cases s.firstBad 0 args <;> simp
  case isFalse hc => simp [hc]

/-- The check answers nothing else. -/
theorem check_cases {e : RunError} (h : s.check function args = .error e) :
    e = .wrongCount function s.arity args.length ∨
      ∃ index kind type, e = .wrongKind function index kind type := by
  unfold check at h
  split at h
  · split at h
    · cases h
      exact .inr ⟨_, _, _, rfl⟩
    · cases h
  · cases h
    exact .inl rfl

/-- Behind the check of exactly some parameters there is an argument for each, of its kind. -/
theorem forall₂_of_check {params : List Kind}
    (h : (exact params).check function args = .ok ()) :
    List.Forall₂ (fun kind v => kind.admits v.type = true) params args := by
  obtain ⟨⟨hmin, hmax⟩, hadmits⟩ := check_eq_ok_iff.mp h
  have hlength : params.length = args.length := Nat.le_antisymm hmin (hmax rfl)
  refine List.forall₂_iff_get.mpr ⟨hlength, fun i hi hi' => ?_⟩
  refine hadmits i _ _ (List.getElem?_eq_getElem hi') ?_
  simp [kindAt, exact, hi]

end Signature

/-! ## Kinds -/

namespace Kind

variable {v : Value}

theorem bool_of_admits (h : bool.admits v.type = true) : ∃ b, v = .bool b := by
  cases v <;> first | exact ⟨_, rfl⟩ | cases h

theorem int_of_admits (h : int.admits v.type = true) : ∃ n, v = .int n := by
  cases v <;> first | exact ⟨_, rfl⟩ | cases h

theorem string_of_admits (h : string.admits v.type = true) : ∃ s, v = .str s := by
  cases v <;> first | exact ⟨_, rfl⟩ | cases h

theorem function_of_admits (h : function.admits v.type = true) : ∃ f, v = .function f := by
  cases v <;> first | exact ⟨_, rfl⟩ | cases h

theorem number_of_admits (h : number.admits v.type = true) :
    (∃ n, v = .int n) ∨ ∃ x, v = .float x := by
  cases v <;> first | exact .inl ⟨_, rfl⟩ | exact .inr ⟨_, rfl⟩ | cases h

end Kind

/-! ## Functions that know nothing about other arguments

The functions once more, without an answer where an argument is missing or not of the kind they are
meant for.
-/

/-- The value of a number as a float. -/
def Value.asFloat? : Value → Option Float
  | .int n => some n.toFloat
  | .float x => some x
  | _ => none

/-- Two operands: integers, or floats if one of them is. -/
def operands? : Value → Value → Option Operands
  | .int a, .int b => some (.ints a b)
  | .int a, .float y => some (.floats a.toFloat y)
  | .float x, .int b => some (.floats x b.toFloat)
  | .float x, .float y => some (.floats x y)
  | _, _ => none

/-- An operation on the first two arguments, which are numbers. -/
def arithmetic? (ints : Int64 → Int64 → Except RunError Value)
    (floats : Float → Float → Except RunError Value) (args : List Value) :
    Option (Script Value) := do
  match ← operands? (← args[0]?) (← args[1]?) with
  | .ints a b => return .ofExcept (ints a b)
  | .floats x y => return .ofExcept (floats x y)

/-- A comparison of the first two arguments, which are numbers. -/
def comparison? (ints : Int64 → Int64 → Bool) (floats : Float → Float → Bool)
    (args : List Value) : Option (Script Value) :=
  arithmetic? (fun a b => .ok (.bool (ints a b))) (fun x y => .ok (.bool (floats x y))) args

/-- An operation on the first two arguments, which are truth values. -/
def logic? (f : Bool → Bool → Bool) (args : List Value) : Option (Script Value) := do
  match ← args[0]?, ← args[1]? with
  | .bool a, .bool b => return .done (.bool (f a b))
  | _, _ => none

/-- What a method does with its arguments, the value it was selected from first. -/
def Method.body? (m : Method) (args : List Value) : Option (Script Value) :=
  match m with
  | add =>
    arithmetic? (fun a b => checked "+" (a.toInt + b.toInt)) (fun x y => .ok (.float (x + y))) args
  | sub =>
    if args.length = 1 then do
      match ← args[0]? with
      | .int a => return .ofExcept (checked "-" (-a.toInt))
      | .float x => return .done (.float (-x))
      | _ => none
    else
      arithmetic? (fun a b => checked "-" (a.toInt - b.toInt)) (fun x y => .ok (.float (x - y))) args
  | mul =>
    arithmetic? (fun a b => checked "*" (a.toInt * b.toInt)) (fun x y => .ok (.float (x * y))) args
  | div => arithmetic? intDiv floatDiv args
  | rem => arithmetic? intRem floatMod args
  | lt => comparison? (fun a b => a < b) (fun x y => x < y) args
  | gt => comparison? (fun a b => b < a) (fun x y => y < x) args
  | le => comparison? (fun a b => a ≤ b) (fun x y => x ≤ y) args
  | ge => comparison? (fun a b => b ≤ a) (fun x y => y ≤ x) args
  | not => do
    match ← args[0]? with
    | .bool b => return .done (.bool !b)
    | _ => none
  | and => logic? (fun a b => a && b) args
  | or => logic? (fun a b => a || b) args
  | concat => do
    match ← args[0]?, ← args[1]? with
    | .str a, .str b => return .done (.str (a ++ b))
    | _, _ => none
  | textLength => do
    match ← args[0]? with
    | .str s => return .done (.int (Int64.ofNat s.length))
    | _ => none
  | tupleLength => do
    match ← args[0]? with
    | .tuple items => return .done (.int (Int64.ofNat items.length))
    | _ => none
  | tupleGet => do
    match ← args[0]?, ← args[1]? with
    | .tuple items, .int index => return itemAt items index
    | _, _ => none
  | text => do return (← args[0]?).toText.bind fun s => .done (.str s)
  | equal => do return ((← args[0]?).equals (← args[1]?)).bind fun r => .done (.bool r)
  | differ => do return ((← args[0]?).equals (← args[1]?)).bind fun r => .done (.bool !r)

/-- What a built-in function does with its arguments. -/
def Builtin.body? (b : Builtin) (args : List Value) : Option (Script Value) :=
  match b with
  | print => some ((spacedText args).bind fun s => .print s (.done .unit))
  | println => some ((spacedText args).bind fun s => .print (s ++ "\n") (.done .unit))
  | choose => do
    match ← args[0]? with
    | .bool b =>
      match ← args[if b then 1 else 2]? with
      | .function f => return Script.request (.call f [])
      | _ => none
    | _ => none
  | struct => do
    match ← args[0]? with
    | .function f => return .done (.struct f)
    | _ => none
  | tuple => some (.done (.tuple args))
  | load => do
    match ← args[0]? with
    | .str name => return Script.request (.load name)
    | _ => none
  | sqrt => do return .done (.float (← (← args[0]?).asFloat?).sqrt)
  | abs => do
    match ← args[0]? with
    | .int n => return .ofExcept (checked "abs" n.toInt.natAbs)
    | other => return .done (.float (← other.asFloat?).abs)
  | floor => do
    match ← args[0]? with
    | .int n => return .done (.int n)
    | other => return .done (.float (← other.asFloat?).floor)
  | pow => do
    match ← args[0]?, ← args[1]? with
    | .int a, .int b =>
      return if 0 ≤ b.toInt then .ofExcept (intPow a b) else .done (.float (a.toFloat.pow b.toFloat))
    | a, b => return .done (.float ((← a.asFloat?).pow (← b.asFloat?)))
  | min => do
    match ← args[0]?, ← args[1]? with
    | .int a, .int b => return .done (.int (if b < a then b else a))
    | a, b => return .done (.float (floatMin (← a.asFloat?) (← b.asFloat?)))
  | max => do
    match ← args[0]?, ← args[1]? with
    | .int a, .int b => return .done (.int (if a < b then b else a))
    | a, b => return .done (.float (floatMax (← a.asFloat?) (← b.asFloat?)))

/-- Behind its signature a built-in function finds what it expects. -/
theorem Builtin.body?_of_check {b : Builtin} {function : String} {args : List Value}
    (h : b.signature.check function args = .ok ()) : b.body? args = some (b.script args) := by
  cases b with
  | print | println | tuple => rfl
  | choose =>
    obtain _ | ⟨hc, _ | ⟨hf, _ | ⟨hg, _ | _⟩⟩⟩ := Signature.forall₂_of_check h
    obtain ⟨c, rfl⟩ := Kind.bool_of_admits hc
    obtain ⟨f, rfl⟩ := Kind.function_of_admits hf
    obtain ⟨g, rfl⟩ := Kind.function_of_admits hg
    cases c <;> rfl
  | struct =>
    obtain _ | ⟨hf, _ | _⟩ := Signature.forall₂_of_check h
    obtain ⟨f, rfl⟩ := Kind.function_of_admits hf
    rfl
  | load =>
    obtain _ | ⟨hs, _ | _⟩ := Signature.forall₂_of_check h
    obtain ⟨s, rfl⟩ := Kind.string_of_admits hs
    rfl
  | sqrt | abs | floor =>
    obtain _ | ⟨hn, _ | _⟩ := Signature.forall₂_of_check h
    obtain ⟨n, rfl⟩ | ⟨x, rfl⟩ := Kind.number_of_admits hn <;> rfl
  | pow | min | max =>
    obtain _ | ⟨hn, _ | ⟨hm, _ | _⟩⟩ := Signature.forall₂_of_check h
    obtain ⟨n, rfl⟩ | ⟨x, rfl⟩ := Kind.number_of_admits hn <;>
      obtain ⟨m, rfl⟩ | ⟨y, rfl⟩ := Kind.number_of_admits hm <;> rfl

/-- A value of a type that has a method is of the kind the method expects. -/
theorem Method.receiver_of_mem {m : Method} {v : Value} (h : m ∈ ofType v.type) :
    (m ∈ ofNumbers ∧ ((∃ n, v = .int n) ∨ ∃ x, v = .float x)) ∨ (m ∈ ofBools ∧ ∃ b, v = .bool b) ∨
      (m ∈ ofTexts ∧ ∃ s, v = .str s) ∨ (m ∈ ofTuples ∧ ∃ items, v = .tuple items) := by
  cases v with
  | int n => exact .inl ⟨h, .inl ⟨n, rfl⟩⟩
  | float x => exact .inl ⟨h, .inr ⟨x, rfl⟩⟩
  | bool b => exact .inr (.inl ⟨h, b, rfl⟩)
  | str s => exact .inr (.inr (.inl ⟨h, s, rfl⟩))
  | tuple items => exact .inr (.inr (.inr ⟨h, items, rfl⟩))
  | _ => exact absurd h List.not_mem_nil

section Methods

variable {m : Method} {v : Value} {function : String} {args : List Value}

theorem Method.body?_of_numbers (hm : m ∈ ofNumbers)
    (hv : (∃ n, v = .int n) ∨ ∃ x, v = .float x)
    (h : m.signature.check function args = .ok ()) : m.body? (v :: args) = some (m.script v args) := by
  have binary (hs : m.signature = .exact [.number]) :
      ∃ w, args = [w] ∧ ((∃ n, w = .int n) ∨ ∃ x, w = .float x) := by
    rw [hs] at h
    obtain _ | ⟨hw, _ | _⟩ := Signature.forall₂_of_check h
    exact ⟨_, rfl, Kind.number_of_admits hw⟩
  cases m with
  | sub =>
    obtain ⟨⟨-, hmax⟩, hadmits⟩ := Signature.check_eq_ok_iff.mp h
    match args, hmax rfl with
    | [], _ => obtain ⟨n, rfl⟩ | ⟨x, rfl⟩ := hv <;> rfl
    | [w], _ =>
      have hw := Kind.number_of_admits (hadmits 0 w .number rfl rfl)
      obtain ⟨n, rfl⟩ | ⟨x, rfl⟩ := hv <;> obtain ⟨k, rfl⟩ | ⟨y, rfl⟩ := hw <;> rfl
  | add | mul | div | rem | lt | gt | le | ge =>
    obtain ⟨w, rfl, hw⟩ := binary rfl
    obtain ⟨n, rfl⟩ | ⟨x, rfl⟩ := hv <;> obtain ⟨k, rfl⟩ | ⟨y, rfl⟩ := hw <;> rfl
  | _ => simp [ofNumbers] at hm

theorem Method.body?_of_bools {b : Bool} (hm : m ∈ ofBools)
    (h : m.signature.check function args = .ok ()) :
    m.body? (.bool b :: args) = some (m.script (.bool b) args) := by
  cases m with
  | not =>
    obtain _ | _ := Signature.forall₂_of_check h
    rfl
  | and | or =>
    obtain _ | ⟨hw, _ | _⟩ := Signature.forall₂_of_check h
    obtain ⟨c, rfl⟩ := Kind.bool_of_admits hw
    rfl
  | _ => simp [ofBools] at hm

theorem Method.body?_of_texts {s : String} (hm : m ∈ ofTexts)
    (h : m.signature.check function args = .ok ()) :
    m.body? (.str s :: args) = some (m.script (.str s) args) := by
  cases m with
  | concat =>
    obtain _ | ⟨hw, _ | _⟩ := Signature.forall₂_of_check h
    obtain ⟨t, rfl⟩ := Kind.string_of_admits hw
    rfl
  | textLength =>
    obtain _ | _ := Signature.forall₂_of_check h
    rfl
  | _ => simp [ofTexts] at hm

theorem Method.body?_of_tuples {items : List Value} (hm : m ∈ ofTuples)
    (h : m.signature.check function args = .ok ()) :
    m.body? (.tuple items :: args) = some (m.script (.tuple items) args) := by
  cases m with
  | tupleLength =>
    obtain _ | _ := Signature.forall₂_of_check h
    rfl
  | tupleGet =>
    obtain _ | ⟨hw, _ | _⟩ := Signature.forall₂_of_check h
    obtain ⟨n, rfl⟩ := Kind.int_of_admits hw
    rfl
  | _ => simp [ofTuples] at hm

theorem Method.body?_of_universal (hm : m ∈ universal)
    (h : m.signature.check function args = .ok ()) : m.body? (v :: args) = some (m.script v args) := by
  cases m with
  | text =>
    obtain _ | _ := Signature.forall₂_of_check h
    rfl
  | equal | differ =>
    obtain _ | ⟨-, _ | _⟩ := Signature.forall₂_of_check h
    rfl
  | _ => simp [universal] at hm

/-- Behind its signature a method of a value finds what it expects, the value itself included. -/
theorem Method.body?_of_check (hm : m ∈ ofType v.type ∨ m ∈ universal)
    (h : m.signature.check function args = .ok ()) : m.body? (v :: args) = some (m.script v args) := by
  obtain hm | hm := hm
  · obtain ⟨hm, hv⟩ | ⟨hm, b, rfl⟩ | ⟨hm, s, rfl⟩ | ⟨hm, items, rfl⟩ := receiver_of_mem hm
    · exact body?_of_numbers hm hv h
    · exact body?_of_bools hm h
    · exact body?_of_texts hm h
    · exact body?_of_tuples hm h
  · exact body?_of_universal hm h

end Methods

/-! ## Calls -/

namespace Function

/-- The parameters of a function. -/
def signature : Function → Signature
  | native n => n.signature
  | method _ _ m => m.signature
  | closure _ c => .exact (.replicate c.graph.params.toNat .any)

/-- The error with which a call is refused before the function sees its arguments. -/
def refusal? (f : Function) (args : List Value) : Option RunError :=
  match f.signature.check f.name args with
  | .ok () => none
  | .error e => some e

/-- What a built-in function or a method does with its arguments, if it knows anything about such
arguments. -/
def body? : Function → List Value → Option (Script Value)
  | native n, args =>
    match n.body with
    | .builtin b => b.body? args
    | .host _ => none
  | method _ v m, args => m.body? (v :: args)
  | closure .., _ => none

/-- The functions that are found by name where nothing has been registered, and those that are
selected from values other than structs. A library from which one is selected is the standard one,
or does not have the name itself. -/
inductive Obtainable : Function → Prop where
  | named {identity : Nat} {name : String} {f : Function}
    (h : (name, .function f) ∈ (Environment.prelude identity).entries) : Obtainable f
  | selected {v : Value} {name : String} {form : Form} {answer : Request → Run Value} {level : Nat}
    {m m' : Machine} {f : Function} (hs : v.type ≠ .struct)
    (hl : ∀ i owner symbols, v = .library i owner symbols →
      symbols.lookup name = none ∨ ∃ j, v = .mathLibrary j)
    (h : (v.select name form).run answer level m = .ok (.function f) m') : Obtainable f

end Function

section Fields

variable {v w : Value} {name : String} {form : Form} {answer : Request → Run Value} {level : Nat}
  {m m' : Machine}

theorem Value.bindMethod_run (v : Value) (method : Method) :
    (v.bindMethod method).run answer level m =
      .ok (.function (.method m.identities v method)) { m with identities := m.identities + 1 } := rfl

/-- What is found without running anything, the universal methods left out: a symbol of a library, or
a method of the type. -/
theorem Value.staticField_cases (hs : v.type ≠ .struct) :
    (∃ i owner symbols u, v = .library i owner symbols ∧ symbols.lookup name = some u ∧
      v.field name = .done u) ∨
    (∃ method ∈ Method.ofType v.type, v.field name = v.bindMethod method) ∨
    v.staticField name = .done none := by
  cases v with
  | struct f => exact absurd rfl hs
  | library i owner symbols =>
    cases hl : symbols.lookup name with
    | some u =>
      refine .inl ⟨i, owner, symbols, u, rfl, hl, ?_⟩
      simp only [field, staticField, hl]
      rfl
    | none =>
      refine .inr (.inr ?_)
      simp only [staticField, hl]
      rfl
  | _ =>
    refine .inr ?_
    cases hm : Method.find? (Method.ofType _) name with
    | some method =>
      refine .inl ⟨method, List.mem_of_find?_eq_some hm, ?_⟩
      simp only [field, staticField, hm]
      rfl
    | none =>
      refine .inr ?_
      simp only [staticField, hm]
      rfl

/-- Otherwise a universal method is found, or nothing. -/
theorem Value.universalField_cases (hs : v.type ≠ .struct) (h : v.staticField name = .done none) :
    (∃ method ∈ Method.universal, v.field name = v.bindMethod method) ∨
      v.field name = .fail (v.missingField name) := by
  cases v with
  | struct f => exact absurd rfl hs
  | _ =>
    cases hm : Method.find? Method.universal name with
    | some method =>
      refine .inl ⟨method, List.mem_of_find?_eq_some hm, ?_⟩
      simp only [field, h, hm]
      rfl
    | none =>
      refine .inr ?_
      simp only [field, h, hm]
      rfl

/-- A field of a value that is no struct: a symbol of a library, or a method bound to the value. -/
theorem Value.field_cases (hs : v.type ≠ .struct)
    (h : (v.field name).run answer level m = .ok w m') :
    (∃ i owner symbols, v = .library i owner symbols ∧ symbols.lookup name = some w) ∨
      ∃ i method, w = .function (.method i v method) ∧
        (method ∈ Method.ofType v.type ∨ method ∈ Method.universal) := by
  obtain ⟨i, owner, symbols, u, hv, hl, hf⟩ | ⟨method, hmem, hf⟩ | hnone :=
    @staticField_cases v name hs
  · rw [hf] at h
    cases h
    exact .inl ⟨i, owner, symbols, hv, hl⟩
  · rw [hf, bindMethod_run] at h
    cases h
    exact .inr ⟨_, method, rfl, .inl hmem⟩
  · obtain ⟨method, hmem, hf⟩ | hf := universalField_cases hs hnone
    · rw [hf, bindMethod_run] at h
      cases h
      exact .inr ⟨_, method, rfl, .inr hmem⟩
    · rw [hf] at h
      cases h

/-- Selecting a function finds it as a field. -/
theorem Value.field_of_select {f : Function}
    (h : (v.select name form).run answer level m = .ok (.function f) m') :
    (v.field name).run answer level m = .ok (.function f) m' := by
  rw [select, Script.bind_eq, Script.run_bind, Run.bind_apply] at h
  cases hf : (v.field name).run answer level m with
  | error e m₁ =>
    rw [hf] at h
    cases h
  | ok u m₁ =>
    rw [hf] at h
    cases u with
    | function g =>
      simp only at h
      split at h
      case isTrue => exact h
      case isFalse => cases h
    | _ => cases h

end Fields

namespace Function

theorem builtin_of_mem_prelude {identity : Nat} {name : String} {f : Function}
    (h : (name, .function f) ∈ (Environment.prelude identity).entries) :
    ∃ b : Builtin, f = .native b.native := by
  obtain h | h := List.mem_append.mp h
  · obtain h | h := List.mem_append.mp h
    · simp at h
    · obtain ⟨b, -, hb⟩ := List.mem_map.mp h
      cases hb
      exact ⟨b, rfl⟩
  · simp [Value.mathLibrary] at h

theorem builtin_of_lookup_math {identity i : Nat} {owner name : String}
    {symbols : List (String × Value)} {f : Function}
    (hl : Value.library i owner symbols = .mathLibrary identity)
    (h : symbols.lookup name = some (.function f)) : ∃ b : Builtin, f = .native b.native := by
  obtain ⟨before, after, rfl, -⟩ := List.lookup_eq_some_iff.mp h
  injection hl with _ _ hsymbols
  have hmem : (name, Value.function f) ∈ before ++ (name, Value.function f) :: after := by simp
  rw [hsymbols] at hmem
  obtain hmem | hmem := List.mem_append.mp hmem
  · simp at hmem
  · obtain ⟨b, -, hb⟩ := List.mem_map.mp hmem
    cases hb
    exact ⟨b, rfl⟩

/-- What can be obtained is built in, or a method bound to a value that has it. -/
theorem Obtainable.cases {f : Function} (h : f.Obtainable) :
    (∃ b : Builtin, f = .native b.native) ∨
      ∃ i v m, f = .method i v m ∧ (m ∈ Method.ofType v.type ∨ m ∈ Method.universal) := by
  cases h with
  | named h => exact .inl (builtin_of_mem_prelude h)
  | selected hs hl h =>
    obtain ⟨i, owner, symbols, rfl, hlookup⟩ | ⟨i, m, hw, hm⟩ :=
      Value.field_cases hs (Value.field_of_select h)
    · obtain hn | ⟨j, hj⟩ := hl i owner symbols rfl
      · rw [hn] at hlookup
        cases hlookup
      · exact .inl (builtin_of_lookup_math hj hlookup)
    · cases hw
      exact .inr ⟨i, _, m, rfl, hm⟩

/-- Behind its signature whatever can be obtained finds what it expects. A call is refused with the
error of the check, or it runs what the function does with the arguments. -/
theorem Obtainable.answer_eq {f : Function} (hf : f.Obtainable) (args : List Value) :
    match f.refusal? args with
    | some e => ∀ (h : Host) (fuel depth : Nat) (m : Machine),
      h.answer (fuel + 1) depth (.call f args) m = .error (.error e) m
    | none => ∃ body, f.body? args = some body ∧ ∀ (h : Host) (fuel depth : Nat) (m : Machine),
      h.answer (fuel + 1) depth (.call f args) m = body.run (h.answer fuel depth) depth m := by
  obtain ⟨b, rfl⟩ | ⟨i, v, method, rfl, hm⟩ := hf.cases
  · unfold refusal?
    cases hc : (native b.native).signature.check (native b.native).name args with
    | error e =>
      intro h fuel depth m
      have hc' : b.native.signature.check b.native.name args = .error e := hc
      rw [Host.answer, hc']
      rfl
    | ok _ =>
      refine ⟨b.script args, Builtin.body?_of_check hc, fun h fuel depth m => ?_⟩
      have hc' : b.native.signature.check b.native.name args = .ok () := hc
      rw [Host.answer, hc']
      rfl
  · unfold refusal?
    cases hc : (Function.method i v method).signature.check (Function.method i v method).name args with
    | error e =>
      intro h fuel depth m
      have hc' : method.signature.check (Function.method i v method).name args = .error e := hc
      rw [Host.answer, hc']
      rfl
    | ok _ =>
      refine ⟨method.script v args, Method.body?_of_check hm hc, fun h fuel depth m => ?_⟩
      have hc' : method.signature.check (Function.method i v method).name args = .ok () := hc
      rw [Host.answer, hc']
      rfl

/-- **Built-in functions are total behind their signatures.** A call of whatever can be obtained is
refused if and only if the number of arguments is out of range, or else an argument is not of its
kind, and the first such one is named; a refused call leaves the machine as it is. Any other call
runs the body, and the body has every argument that it looks for, of the kind that it expects. -/
theorem Obtainable.refused_or_runs {f : Function} (hf : f.Obtainable) (args : List Value) :
    (f.refusal? args = some (.wrongCount f.name f.signature.arity args.length) ↔
      ¬ f.signature.InRange args) ∧
    (∀ index kind type, f.refusal? args = some (.wrongKind f.name index kind type) ↔
      f.signature.InRange args ∧ f.signature.FirstBad args index kind type) ∧
    match f.refusal? args with
    | some e =>
      (e = .wrongCount f.name f.signature.arity args.length ∨
        ∃ index kind type, e = .wrongKind f.name index kind type) ∧
      ∀ (h : Host) (fuel depth : Nat) (m : Machine),
        h.answer (fuel + 1) depth (.call f args) m = .error (.error e) m
    | none => ∃ body, f.body? args = some body ∧ ∀ (h : Host) (fuel depth : Nat) (m : Machine),
      h.answer (fuel + 1) depth (.call f args) m = body.run (h.answer fuel depth) depth m := by
  have hr (e : RunError) : f.refusal? args = some e ↔ f.signature.check f.name args = .error e := by
    unfold refusal?
    split <;> simp_all
  refine ⟨(hr _).trans Signature.check_eq_wrongCount_iff,
    fun index kind type => (hr _).trans Signature.check_eq_wrongKind_iff, ?_⟩
  have hanswer := hf.answer_eq args
  cases he : f.refusal? args with
  | some e =>
    simp only [he] at hanswer ⊢
    exact ⟨Signature.check_cases ((hr e).mp he), hanswer⟩
  | none => simpa only [he] using hanswer

/-- The operator `-` of the number 7. -/
def minus : Function := method 0 (.int 7) .sub

theorem obtainable_minus : minus.Obtainable := by
  have h : ((Value.int 7).select "-" .unary).run (fun _ => Run.fail .emptyBody) 0 default =
      .ok (.function minus) { (default : Machine) with identities := 1 } := rfl
  exact .selected (by decide) (by simp) h

/-- The operator takes no argument or a number. -/
theorem refused_or_runs_minus :
    minus.refusal? [.int 1, .int 2] = some (.wrongCount minus.name minus.signature.arity 2) ∧
    minus.refusal? [.bool true] = some (.wrongKind minus.name 0 .number .bool) ∧
    ∃ body, minus.body? [.int 1] = some body ∧ ∀ (h : Host) (fuel depth : Nat) (m : Machine),
      h.answer (fuel + 1) depth (.call minus [.int 1]) m = body.run (h.answer fuel depth) depth m := by
  refine ⟨(obtainable_minus.refused_or_runs _).1.mpr fun h => absurd (h.2 rfl) (by decide),
    ((obtainable_minus.refused_or_runs _).2.1 0 .number .bool).mpr ⟨⟨by decide, fun _ => by decide⟩, ?_⟩,
    (obtainable_minus.refused_or_runs [.int 1]).2.2⟩
  exact ⟨rfl, rfl, rfl, fun j hj => absurd hj (Nat.not_lt_zero j)⟩

end Function

end Dataflow
