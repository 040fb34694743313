import Dataflow.Proofs.Compile.Statements

/-!
# The numbers that compiling gives out

Compiling is watched: whenever a number is given out, it is written down together with the
instructions of its value, scope by scope. Watching changes nothing.

* `Given`, `Numbering`: what a scope gives out, in the order of the program;
* `Recorder`: compiling that is watched, and `Node.record`: the numbers of a program;
* `Given.Orderly`, `Given.OrderlyScope`: every number is the one after the last;
* `Emission.Gains`: what is written down is what the emission has gained;
* **`Node.record_compile`**: every program that compiles has an orderly record.
-/

namespace Dataflow

/-- The numbers that one scope gives out: to parameters, to the functions declared in it, and to all
else in the order of the program, with the number of its value. -/
structure Numbers (γ : Type) where
  first : ValueId
  params : List ValueId
  hoisted : List ValueId
  given : List γ
  result : ValueId

/-- A value with its number and its instructions, or a function with its number and the numbers of
its own scope. -/
inductive Given where
  | value (id : ValueId) (is : List Instruction)
  | function (id : ValueId) (scope : Numbers Given)

/-- The numbers of a scope and of all scopes inside it. -/
abbrev Numbering := Numbers Given

namespace Given

/-- The values among what was given out. -/
def values : List Given → List (ValueId × List Instruction)
  | [] => []
  | value id is :: gs => (id, is) :: values gs
  | function _ _ :: gs => values gs

/-- The functions among what was given out. -/
def functions : List Given → List (ValueId × Numbering)
  | [] => []
  | value _ _ :: gs => functions gs
  | function id scope :: gs => (id, scope) :: functions gs

mutual

/-- The instructions of a value or a function. -/
def code : Given → List Instruction
  | value _ is => is
  | function _ ⟨_, params, _, given, _⟩ => .enter (.ofNat params.length) :: codes given ++ [.leave]

/-- The instructions of all that was given out. -/
def codes : List Given → List Instruction
  | [] => []
  | g :: gs => code g ++ codes gs

end

mutual

/-- How many parameters there are in all scopes of a value or a function. -/
def width : Given → Nat
  | value _ _ => 0
  | function _ ⟨_, params, _, given, _⟩ => params.length + widths given

/-- How many parameters there are in all scopes of what was given out. -/
def widths : List Given → Nat
  | [] => 0
  | g :: gs => width g + widths gs

end

/-- Consecutive numbers. -/
def run (first : ValueId) (count : Nat) : List ValueId :=
  (List.range count).map fun i => first + Int32.ofNat i

mutual

/-- The numbers of a function body go on from `next`: first those of its parameters, then those of
its functions, then all others. The last one is the number of its value. -/
def OrderlyScope (next : ValueId) : Numbering → Prop
  | ⟨first, params, hoisted, given, result⟩ => first = next ∧
    params = run first params.length ∧ hoisted = run (first + .ofNat params.length) hoisted.length ∧
    Orderly (first + .ofNat (params.length + hoisted.length)) given ∧
    hoisted = (functions given).map Prod.fst ∧
    (hoisted ++ (values given).map Prod.fst).getLast? = some result

/-- Values have the numbers from `next` on, and function bodies go on from there. -/
def Orderly (next : ValueId) : List Given → Prop
  | [] => True
  | value id is :: gs =>
    id = next ∧ (∃ args i, is = args.map .argument ++ [i] ∧ Segment.Produces args i) ∧
      Orderly (next + 1) gs
  | function _ scope :: gs => OrderlyScope next scope ∧ Orderly next gs

end

end Given

/-! ## Watching -/

/-- Compiling while what is given out is written down. -/
abbrev Recorder := StateT (List Given) Emit

namespace Recorder

variable {α : Type}

/-- The number that was given out between two states, with the instructions that were emitted. -/
def newly (s s' : Emission) : List Given :=
  if s'.scope.next = s.scope.next then []
  else [.value s.scope.next (s'.instructions.toList.drop s.instructions.size)]

/-- Watches something that gives out one number at most. -/
def watch (x : Emit α) : Recorder α := fun gs s => do
  let (a, s') ← x s
  return ((a, gs ++ newly s s'), s')

/-- Watches the statements of a scope. -/
def body (items : List Node) (x : List ValueId → Recorder ValueId) :
    Emit (List ValueId × ValueId × List Given) := do
  let hoisted ← Emit.hoist items
  let r ← x hoisted []
  return (hoisted, r)

/-- Watches a function. -/
def scope (params : List String) (span : Span) (hoisted : List ValueId) (items : List Node)
    (x : List ValueId → Recorder ValueId) : Recorder (ValueId × List ValueId) := do
  let first := (← getThe Emission).scope.next
  Emit.enter params span
  let ids := (← getThe Emission).scope.names.reverse.map Prod.snd
  let (inner, result, given) ← body items x
  Emit.leave
  let (id, hoisted) ← Node.takeNumber span hoisted
  modify (· ++ [.function id ⟨first, ids, inner, given, result⟩])
  return (id, hoisted)

mutual

/-- Watches how an expression is compiled. -/
def emit (builtin : String → Option ValueId) : Node → Recorder ValueId
  | .literal _ l => watch (Emit.literal l)
  | .ident span name => watch (Emit.resolve builtin name span)
  | .assign span names value => do watch (Emit.assign names (← emit builtin value) span)
  | .call _ callee args => do
    let callee ← emit builtin callee
    let args ← emitArgs builtin args
    watch (Emit.call callee args)
  | .select span value field form => do
    let value ← emit builtin value
    watch (do
      Emit.requireField field form span
      let name ← Emit.intern (.ofText field)
      Emit.emitValue (.field value name form))
  | .function span name _ _ => watch (Emit.fail (.misplacedFunction name) span)
  | .list span items => do watch (Emit.conclude builtin span (← emitItems builtin items))

/-- Watches how arguments are compiled. -/
def emitArgs (builtin : String → Option ValueId) : List Node → Recorder (List ValueId)
  | [] => return []
  | arg :: args => do
    let id ← emit builtin arg
    return id :: (← emitArgs builtin args)

/-- Watches how statements are compiled where no function can be declared. -/
def emitItems (builtin : String → Option ValueId) : List Node → Recorder (Option (ValueId × Bool))
  | [] => return none
  | [item] => return some (← emit builtin item, item.isIdent)
  | item :: items => do
    let _ ← emit builtin item
    emitItems builtin items

end

mutual

/-- Watches how a statement is compiled. -/
def emitStatement (builtin : String → Option ValueId) (hoisted : List ValueId) :
    Node → Recorder (ValueId × List ValueId)
  | .function span _ params (.list inner items) =>
    scope params span hoisted items fun ids => do
      watch (Emit.conclude builtin inner (← emitStatements builtin ids items))
  | .function span _ params other =>
    scope params span hoisted [other] fun ids => do
      let (id, _) ← emitStatement builtin ids other
      watch (Emit.conclude builtin other.span (some (id, other.isIdent)))
  | item => return (← emit builtin item, hoisted)

/-- Watches how statements are compiled. -/
def emitStatements (builtin : String → Option ValueId) (hoisted : List ValueId) :
    List Node → Recorder (Option (ValueId × Bool))
  | [] => return none
  | [item] => do
    let (id, _) ← emitStatement builtin hoisted item
    return some (id, item.isIdent)
  | item :: items => do
    let (_, hoisted) ← emitStatement builtin hoisted item
    emitStatements builtin hoisted items

end

end Recorder

/-- The numbers that are given out when a program is compiled. -/
def Node.record (builtin : String → Option ValueId) : Node → Except CompileError Numbering
  | .list span items => do
    let start : Emission := ⟨.startingAt 0, [], .empty, #[]⟩
    let ((hoisted, result, given), _) ← (Recorder.body items fun ids => do
      Recorder.watch (Emit.conclude builtin span (← Recorder.emitStatements builtin ids items))) start
    return ⟨0, [], hoisted, given, result⟩
  | other => .error ⟨.notAList, other.span⟩

/-! ## Consecutive numbers -/

namespace Given

theorem add_ofNat_add (first : ValueId) (a b : Nat) :
    first + Int32.ofNat (a + b) = first + Int32.ofNat a + Int32.ofNat b := by
  rw [Int32.ofNat_add, Int32.add_assoc]

theorem add_ofNat_zero (first : ValueId) : first + Int32.ofNat 0 = first := Int32.add_zero first

@[simp]
theorem length_run (first : ValueId) (count : Nat) : (run first count).length = count := by
  simp [run]

theorem run_succ (first : ValueId) (count : Nat) :
    run first (count + 1) = first :: run (first + 1) count := by
  unfold run
  rw [List.range_succ_eq_map, List.map_cons, List.map_map, add_ofNat_zero]
  congr 1
  refine List.map_congr_left fun i _ => ?_
  show first + Int32.ofNat (i + 1) = _
  rw [Nat.add_comm, add_ofNat_add]
  rfl

theorem run_append (first : ValueId) (a b : Nat) :
    run first (a + b) = run first a ++ run (first + .ofNat a) b := by
  unfold run
  rw [List.range_add, List.map_append, List.map_map]
  congr 1
  refine List.map_congr_left fun i _ => ?_
  exact add_ofNat_add first a i

theorem values_append (gs hs : List Given) : values (gs ++ hs) = values gs ++ values hs := by
  induction gs with
  | nil => rfl
  | cons g gs ih =>
    cases g with
    | value id is => rw [List.cons_append, values, ih, values, List.cons_append]
    | function id scope => exact ih

theorem functions_append (gs hs : List Given) :
    functions (gs ++ hs) = functions gs ++ functions hs := by
  induction gs with
  | nil => rfl
  | cons g gs ih =>
    cases g with
    | value id is => exact ih
    | function id scope => rw [List.cons_append, functions, ih, functions, List.cons_append]

theorem codes_append (gs hs : List Given) : codes (gs ++ hs) = codes gs ++ codes hs := by
  induction gs with
  | nil => rw [codes, List.nil_append, List.nil_append]
  | cons g gs ih => rw [List.cons_append, codes, codes, ih, List.append_assoc]

theorem widths_append (gs hs : List Given) : widths (gs ++ hs) = widths gs + widths hs := by
  induction gs with
  | nil => rw [widths, List.nil_append, Nat.zero_add]
  | cons g gs ih => rw [List.cons_append, widths, widths, ih, Nat.add_assoc]

theorem widths_eq_zero {gs : List Given} (h : functions gs = []) : widths gs = 0 := by
  induction gs with
  | nil => rw [widths]
  | cons g gs ih =>
    cases g with
    | value id is => rw [widths, width, ih h]
    | function id scope => cases h

theorem orderly_append {next : ValueId} {gs hs : List Given} (hg : Orderly next gs)
    (hh : Orderly (next + .ofNat (values gs).length) hs) : Orderly next (gs ++ hs) := by
  induction gs generalizing next with
  | nil => rwa [values, List.length_nil, add_ofNat_zero] at hh
  | cons g gs ih =>
    cases g with
    | value id is =>
      rw [Orderly] at hg
      rw [List.cons_append, Orderly]
      refine ⟨hg.1, hg.2.1, ih hg.2.2 ?_⟩
      rwa [values, List.length_cons, Nat.add_comm, add_ofNat_add] at hh
    | function id scope =>
      rw [Orderly] at hg
      rw [List.cons_append, Orderly]
      exact ⟨hg.1, ih hg.2 hh⟩

/-- Values have consecutive numbers. -/
theorem Orderly.ids {next : ValueId} {gs : List Given} (h : Orderly next gs) :
    (values gs).map Prod.fst = run next (values gs).length := by
  induction gs generalizing next with
  | nil => rfl
  | cons g gs ih =>
    cases g with
    | value id is =>
      rw [Orderly] at h
      rw [values, List.map_cons, ih h.2.2, List.length_cons, run_succ, h.1]
    | function id scope =>
      rw [Orderly] at h
      exact ih h.2

end Given

/-! ## What an emission gains -/

namespace Emission

open Given (values functions codes run Orderly)

/-- What is written down is what an emission has gained: the numbers from the next one on, and the
instructions in order. -/
structure Gains (s : Emission) (gs : List Given) (s' : Emission) : Prop where
  around : s'.around = s.around
  next : s'.scope.next = s.scope.next + .ofNat (values gs).length
  last : s'.scope.last = ((values gs).map Prod.fst).getLast?.or s.scope.last
  instructions : s'.instructions.toList = s.instructions.toList ++ codes gs
  orderly : Orderly s.scope.next gs

variable {s s₁ s' : Emission} {gs hs : List Given}

theorem Gains.of_eq (ha : s'.around = s.around) (hn : s'.scope.next = s.scope.next)
    (hl : s'.scope.last = s.scope.last) (hi : s'.instructions = s.instructions) :
    s.Gains [] s' := by
  refine ⟨ha, ?_, hl, ?_, ?_⟩
  · rw [hn, values, List.length_nil, Given.add_ofNat_zero]
  · rw [hi, codes, List.append_nil]
  · rw [Orderly]
    trivial

theorem Gains.trans (h : s.Gains gs s₁) (h' : s₁.Gains hs s') : s.Gains (gs ++ hs) s' := by
  refine ⟨h'.around.trans h.around, ?_, ?_, ?_, ?_⟩
  · rw [h'.next, h.next, Given.values_append, List.length_append, Given.add_ofNat_add]
  · rw [h'.last, h.last, Given.values_append, List.map_append, List.getLast?_append, Option.or_assoc]
  · rw [h'.instructions, h.instructions, Given.codes_append, List.append_assoc]
  · exact Given.orderly_append h.orderly (h.next ▸ h'.orderly)

/-- One value has been made. -/
structure Makes (s : Emission) (is : List Instruction) (s' : Emission) : Prop where
  around : s'.around = s.around
  next : s'.scope.next = s.scope.next + 1
  last : s'.scope.last = some s.scope.next
  instructions : s'.instructions.toList = s.instructions.toList ++ is
  produces : ∃ args i, is = args.map .argument ++ [i] ∧ Segment.Produces args i

theorem Makes.gains {is : List Instruction} (h : s.Makes is s') :
    s.Gains [.value s.scope.next is] s' := by
  refine ⟨h.around, h.next, ?_, ?_, ?_⟩
  · rw [h.last]
    rfl
  · rw [h.instructions, codes, codes, Given.code, List.append_nil]
  · rw [Orderly, Orderly]
    exact ⟨rfl, h.produces, trivial⟩

theorem makes_withValue (s : Emission) {args : List ValueId} {i : Instruction}
    (h : Segment.Produces args i) :
    s.Makes (args.map .argument ++ [i]) (Emit.withValue s (args.map .argument ++ [i])) :=
  ⟨rfl, rfl, rfl, by simp [Emit.withValue, Emit.withInstructions], args, i, rfl, h⟩

end Emission

/-! ## Expressions -/

namespace Recorder

open Given (values functions codes widths run Orderly)

variable {α β : Type} {P Q : α → List Given → Emission → Prop} {R : β → List Given → Emission → Prop}

/-- What is watched comes to the same, and what is written down is what has been gained. -/
def Follows (y : Recorder α) (x : Emit α) (P : α → List Given → Emission → Prop) : Prop :=
  ∀ ⦃s a s'⦄, x s = .ok (a, s') →
    ∃ gs, (∀ before, y before s = .ok ((a, before ++ gs), s')) ∧ s.Gains gs s' ∧ P a gs s'

theorem bind_ok {y : Recorder α} {k : α → Recorder β} {before gs : List Given} {s s₁ : Emission}
    {a : α} (hy : y before s = .ok ((a, gs), s₁)) : (y >>= k) before s = k a gs s₁ := by
  show (y before s >>= fun r => k r.1.1 r.1.2 r.2) = _
  rw [hy]
  rfl

theorem lift_ok {x : Emit α} {s s₁ : Emission} {a : α} (hx : x s = .ok (a, s₁))
    (before : List Given) : (liftM x : Recorder α) before s = .ok ((a, before), s₁) := by
  show (x s >>= fun r => Except.ok ((r.1, before), r.2)) = _
  rw [hx]
  rfl

namespace Follows

variable {y : Recorder α} {x : Emit α} {k : α → Recorder β} {f : α → Emit β}

theorem pure (a : α) (h : ∀ s, P a [] s) : Follows (pure a) (pure a) P := by
  intro s b s' hx
  obtain ⟨rfl, rfl⟩ := Emit.pure_eq_ok hx
  exact ⟨[], fun before => by rw [List.append_nil]; rfl, .of_eq rfl rfl rfl rfl, h _⟩

theorem bind (hx : Follows y x P) (hf : ∀ a, Follows (k a) (f a) fun b hs s' =>
      ∀ gs s₁, P a gs s₁ → R b (gs ++ hs) s') : Follows (y >>= k) (x >>= f) R := by
  intro s b s' h
  obtain ⟨a, s₁, h₁, h₂⟩ := Emit.bind_eq_ok h
  obtain ⟨gs, hy, hg, hp⟩ := hx h₁
  obtain ⟨hs, hk, hh, hr⟩ := hf a h₂
  refine ⟨gs ++ hs, fun before => ?_, hg.trans hh, hr gs s₁ hp⟩
  rw [bind_ok (hy before), hk, List.append_assoc]

theorem mono (hx : Follows y x P) (h : ∀ a gs s', P a gs s' → Q a gs s') : Follows y x Q := by
  intro s a s' hr
  obtain ⟨gs, hy, hg, hp⟩ := hx hr
  exact ⟨gs, hy, hg, h a gs s' hp⟩

end Follows

/-- No function is declared. -/
def Plain {α : Type} (_ : α) (gs : List Given) (_ : Emission) : Prop := functions gs = []

theorem Follows.plain_bind {y : Recorder α} {x : Emit α} {k : α → Recorder β} {f : α → Emit β}
    (hx : Follows y x Plain) (hf : ∀ a, Follows (k a) (f a) Plain) :
    Follows (y >>= k) (x >>= f) Plain :=
  hx.bind fun a => (hf a).mono fun b hs s' hh gs s₁ hg => by
    rw [Plain, Given.functions_append, hg, hh]
    rfl

theorem add_one_ne (n : ValueId) : n + 1 ≠ n := by
  intro h
  have h' : n + 1 - n = n - n := by rw [h]
  rw [Int32.sub_self, Int32.add_comm, Int32.add_sub_cancel] at h'
  cases h'

/-- An operation that gives out one number at most. -/
theorem follows_watch {x : Emit α} (h : ∀ ⦃s a s'⦄, x s = .ok (a, s') →
    (s.Gains [] s' ∨ ∃ is, s.Makes is s') ∧ ∀ gs, functions gs = [] → P a gs s') :
    Follows (watch x) x P := by
  intro s a s' hx
  have hw (before : List Given) : watch x before s = .ok ((a, before ++ newly s s'), s') := by
    unfold watch
    rw [hx]
    rfl
  obtain ⟨hgain | ⟨is, hmake⟩, hp⟩ := h hx
  · have hn : newly s s' = [] := by
      have hnext := hgain.next
      rw [values, List.length_nil, Given.add_ofNat_zero] at hnext
      rw [newly, if_pos hnext]
    exact ⟨[], fun before => by rw [hw, hn], hgain, hp [] rfl⟩
  · have hn : newly s s' = [.value s.scope.next is] := by
      rw [newly, hmake.next, if_neg (add_one_ne _), hmake.instructions,
        List.drop_left' Array.length_toList]
    exact ⟨_, fun before => by rw [hw, hn], hmake.gains, hp _ rfl⟩

theorem literal_follows (l : Literal) : Follows (watch (Emit.literal l)) (Emit.literal l) Plain := by
  refine follows_watch fun s id s' h => ⟨?_, fun gs hg => hg⟩
  rcases Emit.literal_eq_ok h with ⟨-, rfl⟩ | ⟨-, -, rfl⟩
  · exact .inl (.of_eq rfl rfl rfl rfl)
  · refine .inr ⟨[.constant (s.pool.intern l.constant).1], rfl, rfl, rfl, ?_, [], _, rfl, rfl⟩
    simp [Emit.withLiteral, Emit.withValue, Emit.withInstructions, Emit.withConstant]

theorem resolve_follows (builtin : String → Option ValueId) (name : String) (span : Span) :
    Follows (watch (Emit.resolve builtin name span)) (Emit.resolve builtin name span) Plain := by
  refine follows_watch fun s id s' h => ⟨?_, fun gs hg => hg⟩
  rw [(Emit.resolve_eq_ok h).1]
  exact .inl (.of_eq rfl rfl rfl rfl)

theorem bound_eq (names : List String) (value : ValueId) (scope : Scope) :
    (Emit.bound scope names value).next = scope.next ∧
      (Emit.bound scope names value).last = scope.last := by
  unfold Emit.bound
  induction names generalizing scope with
  | nil => exact ⟨rfl, rfl⟩
  | cons name names ih => exact ih (scope.bind name value)

theorem assign_follows (names : List String) (value : ValueId) (span : Span) :
    Follows (watch (Emit.assign names value span)) (Emit.assign names value span) Plain := by
  refine follows_watch fun s id s' h => ⟨.inl ?_, fun gs hg => hg⟩
  rw [(Emit.assign_eq_ok h).2]
  exact .of_eq rfl (bound_eq names value s.scope).1 (bound_eq names value s.scope).2 rfl

theorem call_follows (callee : ValueId) (args : List ValueId) :
    Follows (watch (Emit.call callee args)) (Emit.call callee args) Plain := by
  refine follows_watch fun s id s' h => ⟨.inr ?_, fun gs hg => hg⟩
  rw [Emit.call_eq] at h
  cases h
  exact ⟨_, s.makes_withValue trivial⟩

theorem select_follows (span : Span) (value : ValueId) (field : String) (form : Form) :
    Follows (watch (do
      Emit.requireField field form span
      let name ← Emit.intern (.ofText field)
      Emit.emitValue (.field value name form)))
      (do
        Emit.requireField field form span
        let name ← Emit.intern (.ofText field)
        Emit.emitValue (.field value name form)) Plain := by
  refine follows_watch fun s id s' h => ⟨.inr ?_, fun gs hg => hg⟩
  obtain ⟨_, s₁, h₁, h'⟩ := Emit.bind_eq_ok h
  obtain ⟨name, s₂, h₂, h₃⟩ := Emit.bind_eq_ok h'
  rw [Emit.requireField_eq_ok h₁] at h₂
  have hs₂ : s₂ = Emit.withConstant s (.ofText field) := by
    cases h₂
    rfl
  rw [hs₂, Emit.emitValue_eq] at h₃
  cases h₃
  have hm := (Emit.withConstant s (.ofText field)).makes_withValue
    (show Segment.Produces [] (.field value name form) from rfl)
  exact ⟨_, hm.around, hm.next, hm.last, hm.instructions, hm.produces⟩

/-- The value of statements is the last one that was given a number. -/
theorem conclude_follows (builtin : String → Option ValueId) (span : Span)
    (last : Option (ValueId × Bool)) :
    Follows (watch (Emit.conclude builtin span last)) (Emit.conclude builtin span last)
      fun id gs s' => functions gs = [] ∧ s'.scope.last = some id := by
  have copied {value id : ValueId} {s s' : Emission}
      (h : Emit.emitValue (.copy value) s = .ok (id, s')) :
      (s.Gains [] s' ∨ ∃ is, s.Makes is s') ∧
        ∀ gs, functions gs = [] → functions gs = [] ∧ s'.scope.last = some id := by
    rw [Emit.emitValue_eq] at h
    cases h
    exact ⟨.inr ⟨_, s.makes_withValue (show Segment.Produces [] (.copy value) from rfl)⟩, fun gs hg => ⟨hg, rfl⟩⟩
  refine follows_watch fun s id s' h => ?_
  unfold Emit.conclude at h
  cases last with
  | none =>
    cases hu : builtin "unit" with
    | none =>
      simp only [hu] at h
      exact absurd h Emit.fail_ne_ok
    | some unit =>
      simp only [hu] at h
      exact copied h
  | some x =>
    obtain ⟨value, isName⟩ := x
    obtain ⟨s₁, s₂, hg, h⟩ := Emit.bind_eq_ok h
    cases hg
    by_cases hc : isName = true ∨ s.scope.last ≠ some value
    · rw [if_pos hc] at h
      exact copied h
    · rw [if_neg hc] at h
      obtain ⟨rfl, rfl⟩ := Emit.pure_eq_ok h
      exact ⟨.inl (.of_eq rfl rfl rfl rfl), fun gs hg => ⟨hg, by simpa using (not_or.mp hc).2⟩⟩

variable {builtin : String → Option ValueId}

mutual

theorem emit_follows (node : Node) :
    Follows (emit builtin node) (Node.emit builtin node) Plain := by
  cases node with
  | literal span l =>
    rw [emit, Node.emit]
    exact literal_follows l
  | ident span name =>
    rw [emit, Node.emit]
    exact resolve_follows builtin name span
  | assign span names value =>
    rw [emit, Node.emit]
    exact (emit_follows value).plain_bind fun v => assign_follows names v span
  | call span callee args =>
    rw [emit, Node.emit]
    exact (emit_follows callee).plain_bind fun c => (emitArgs_follows args).plain_bind fun ids =>
      call_follows c ids
  | select span value field form =>
    rw [emit, Node.emit]
    exact (emit_follows value).plain_bind fun v => select_follows span v field form
  | function span name params body =>
    rw [emit, Node.emit]
    exact follows_watch fun s id s' h => absurd h Emit.fail_ne_ok
  | list span items =>
    rw [emit, Node.emit]
    exact (emitItems_follows items).plain_bind fun last =>
      (conclude_follows builtin span last).mono fun id gs s' h => h.1

theorem emitArgs_follows (args : List Node) :
    Follows (emitArgs builtin args) (Node.emitArgs builtin args) Plain := by
  cases args with
  | nil =>
    rw [emitArgs, Node.emitArgs]
    exact .pure [] fun s => rfl
  | cons arg args =>
    rw [emitArgs, Node.emitArgs]
    exact (emit_follows arg).plain_bind fun id => (emitArgs_follows args).plain_bind fun ids =>
      .pure (id :: ids) fun s => rfl

theorem emitItems_follows (items : List Node) :
    Follows (emitItems builtin items) (Node.emitItems builtin items) Plain := by
  match items with
  | [] =>
    rw [emitItems, Node.emitItems]
    exact .pure none fun s => rfl
  | [item] =>
    rw [emitItems, Node.emitItems]
    exact (emit_follows item).plain_bind fun id => .pure (some (id, item.isIdent)) fun s => rfl
  | item :: item' :: items =>
    rw [emitItems.eq_3 builtin _ _ (by simp), Node.emitItems.eq_3 builtin _ _ (by simp)]
    exact (emit_follows item).plain_bind fun _ => emitItems_follows (item' :: items)

end

/-! ## Functions -/

/-- Functions are given the next numbers. -/
theorem hoist_eq_ok {items : List Node} {s s' : Emission} {ids : List ValueId}
    (h : Emit.hoist items s = .ok (ids, s')) : s'.around = s.around ∧
      s'.instructions = s.instructions ∧ ids.length = Node.functionCount items ∧
      ids = run s.scope.next ids.length ∧ s'.scope.next = s.scope.next + .ofNat ids.length ∧
      s'.scope.last = ids.getLast?.or s.scope.last := by
  induction items generalizing s ids with
  | nil =>
    obtain ⟨rfl, rfl⟩ := Emit.pure_eq_ok h
    exact ⟨rfl, rfl, rfl, rfl, (Given.add_ofNat_zero _).symm, rfl⟩
  | cons item items ih =>
    cases item with
    | function span name params body =>
      rw [Emit.hoist] at h
      obtain ⟨_, s₁, h₁, h⟩ := Emit.bind_eq_ok h
      obtain ⟨id, s₂, h₂, h⟩ := Emit.bind_eq_ok h
      obtain ⟨_, s₃, h₃, h⟩ := Emit.bind_eq_ok h
      obtain ⟨ids', s₄, h₄, h⟩ := Emit.bind_eq_ok h
      obtain ⟨rfl, rfl⟩ := Emit.pure_eq_ok h
      obtain ⟨rfl, -⟩ := Emit.requireFree_eq_ok h₁
      cases h₂
      cases h₃
      obtain ⟨ha, hi, hc, hr, hn, hl⟩ := ih h₄
      refine ⟨ha, hi, ?_, ?_, ?_, ?_⟩
      · rw [List.length_cons, hc]
        exact (List.countP_cons_of_pos rfl).symm
      · rw [List.length_cons, Given.run_succ]
        exact congrArg _ hr
      · rw [hn, List.length_cons, Nat.add_comm, Given.add_ofNat_add]
        rfl
      · rw [hl, List.getLast?_cons]
        cases ids'.getLast? <;> rfl
    | _ =>
      rw [Emit.hoist] at h
      · simpa [Node.functionCount, Node.isFunction] using ih h
      · simp

theorem parameters_eq_ok {span : Span} (seen names : List String) {scope scope' : Scope}
    {s s' : Emission} (h : Emit.enter.parameters span seen names scope s = .ok (scope', s')) :
    scope'.names.reverse.map Prod.snd =
        scope.names.reverse.map Prod.snd ++ run scope.next names.length ∧
      scope'.next = scope.next + .ofNat names.length := by
  induction names generalizing seen scope with
  | nil =>
    obtain ⟨rfl, rfl⟩ := Emit.pure_eq_ok h
    exact ⟨(List.append_nil _).symm, (Given.add_ofNat_zero _).symm⟩
  | cons name names ih =>
    rw [Emit.enter.parameters] at h
    split at h
    · exact absurd h Emit.fail_ne_ok
    · obtain ⟨hnames, hnext⟩ := ih _ h
      rw [hnames, hnext, List.length_cons, Given.run_succ, Nat.add_comm, Given.add_ofNat_add]
      refine ⟨?_, rfl⟩
      simp [Scope.bind]

/-- Parameters are given the next numbers. -/
theorem enter_eq_ok {params : List String} {span : Span} {s s' : Emission} {u : Unit}
    (h : Emit.enter params span s = .ok (u, s')) : s'.around = s.scope :: s.around ∧
      s'.instructions = s.instructions.push (.enter (.ofNat params.length)) ∧
      s'.scope.names.reverse.map Prod.snd = run s.scope.next params.length ∧
      s'.scope.next = s.scope.next + .ofNat params.length ∧ s'.scope.last = none := by
  obtain ⟨_, s₁, h₁, h⟩ := Emit.bind_eq_ok h
  cases h₁
  obtain ⟨_, s₂, h₂, h⟩ := Emit.bind_eq_ok h
  cases h₂
  obtain ⟨scope, s₃, h₃, h⟩ := Emit.bind_eq_ok h
  cases h
  obtain ⟨hnames, hnext⟩ := parameters_eq_ok [] params h₃
  exact ⟨rfl, rfl, hnames, hnext, rfl⟩

theorem leave_eq_ok {s s' : Emission} {u : Unit} {scope : Scope} {around : List Scope}
    (ha : s.around = scope :: around) (h : Emit.leave s = .ok (u, s')) :
    s' = { s with scope, around, instructions := s.instructions.push .leave } := by
  obtain ⟨scope₁, around₁, pool₁, instructions₁⟩ := s
  cases ha
  cases h
  rfl

/-- The value of a scope is the one that was given a number last, and each of its functions has the
number that was set aside for it. There are at most `k` parameters inside. -/
def Closed (ids : List ValueId) (k : Nat) (result : ValueId) (gs : List Given) (s' : Emission) : Prop :=
  (functions gs).map Prod.fst = ids ∧ s'.scope.last = some result ∧ widths gs ≤ k

/-- What the statements of a scope give out. -/
theorem body_eq_ok {items : List Node} {y : List ValueId → Recorder ValueId}
    {x : List ValueId → Emit ValueId}
    {k : Nat}
    (h : ∀ ids, ids.length = Node.functionCount items → Follows (y ids) (x ids) (Closed ids k))
    {s s₁ s' : Emission} {ids : List ValueId} {result : ValueId}
    (h₁ : Emit.hoist items s = .ok (ids, s₁)) (h₂ : x ids s₁ = .ok (result, s')) :
    ∃ gs, body items y s = .ok ((ids, result, gs), s') ∧ s'.around = s.around ∧
      s'.instructions.toList = s.instructions.toList ++ codes gs ∧
      ids = run s.scope.next ids.length ∧ Orderly (s.scope.next + .ofNat ids.length) gs ∧
      ids = (functions gs).map Prod.fst ∧
      (ids ++ (values gs).map Prod.fst).getLast?.or s.scope.last = some result ∧ widths gs ≤ k := by
  obtain ⟨ha, hi, hc, hr, hn, hl⟩ := hoist_eq_ok h₁
  obtain ⟨gs, hy, hg, hids, hlast, hk⟩ := h ids hc h₂
  refine ⟨gs, ?_, hg.around.trans ha, ?_, hr, hn ▸ hg.orderly, hids.symm, ?_, hk⟩
  · unfold body
    rw [Emit.bind_ok h₁, Emit.bind_ok (show y ids [] s₁ = _ from hy [])]
    rfl
  · rw [hg.instructions, hi]
  · rw [List.getLast?_append, Option.or_assoc, ← hl, ← hg.last]
    exact hlast

/-- A function is watched with its own scope. -/
theorem scope_follows (params : List String) (span : Span) (hoisted : List ValueId)
    {items : List Node} {y : List ValueId → Recorder ValueId} {x : List ValueId → Emit ValueId}
    {k : Nat}
    (h : ∀ ids, ids.length = Node.functionCount items → Follows (y ids) (x ids) (Closed ids k)) :
    Follows (scope params span hoisted items y)
      (do
        Emit.enter params span
        let ids ← Emit.hoist items
        let _ ← x ids
        Emit.leave
        Node.takeNumber span hoisted)
      fun r gs _ => (functions gs).map Prod.fst ++ r.2 = hoisted ∧ (functions gs).length = 1 ∧
        widths gs ≤ params.length + k := by
  intro s r s' hx
  obtain ⟨_, s₁, h₁, hx⟩ := Emit.bind_eq_ok hx
  obtain ⟨ids, s₂, h₂, hx⟩ := Emit.bind_eq_ok hx
  obtain ⟨result, s₃, h₃, hx⟩ := Emit.bind_eq_ok hx
  obtain ⟨_, s₄, h₄, h₅⟩ := Emit.bind_eq_ok hx
  obtain ⟨ha, hi, hparams, hnext, hlast⟩ := enter_eq_ok h₁
  obtain ⟨gs, hbody, ha₃, hi₃, hids, horderly, hfunctions, hresult, hk⟩ := body_eq_ok h h₂ h₃
  obtain rfl := leave_eq_ok (ha₃.trans ha) h₄
  cases hoisted with
  | nil => cases h₅
  | cons id hoisted =>
    have h₅' := h₅
    obtain ⟨rfl, rfl⟩ := Emit.pure_eq_ok h₅
    have hlen : (s₁.scope.names.reverse.map Prod.snd).length = params.length := by
      rw [hparams, Given.length_run]
    refine ⟨[.function id ⟨s.scope.next, s₁.scope.names.reverse.map Prod.snd, ids, gs, result⟩],
      fun before => ?_, ⟨rfl, (Given.add_ofNat_zero _).symm, rfl, ?_, ?_⟩, rfl, rfl, ?_⟩
    · unfold scope
      rw [bind_ok (show (getThe Emission : Recorder Emission) before s = .ok ((s, before), s) from rfl),
        bind_ok (lift_ok h₁ before),
        bind_ok (show (getThe Emission : Recorder Emission) before s₁ = .ok ((s₁, before), s₁) from rfl),
        bind_ok (lift_ok hbody before)]
      dsimp only
      rw [bind_ok (lift_ok h₄ before), bind_ok (lift_ok h₅' before)]
      rfl
    · rw [codes, codes, Given.code, hlen, List.append_nil]
      show (s₃.instructions.push .leave).toList = _
      rw [Array.toList_push, hi₃, hi, Array.toList_push]
      simp
    · rw [Orderly, Orderly, Given.OrderlyScope, hlen]
      refine ⟨⟨rfl, hparams, hnext ▸ hids, ?_, hfunctions, ?_⟩, trivial⟩
      · rw [Given.add_ofNat_add, ← hnext]
        exact horderly
      · rwa [hlast, Option.or_none] at hresult
    · rw [widths, widths, Given.width, hlen]
      omega

/-! ## Statements -/

theorem emitStatement_function (hoisted : List ValueId) (span : Span) (name : String)
    (params : List String) (body : Node) :
    emitStatement builtin hoisted (.function span name params body) =
      scope params span hoisted body.bodyItems (fun ids => do
        watch (Emit.conclude builtin body.span (← emitStatements builtin ids body.bodyItems))) := by
  cases body <;>
    simp only [emitStatement, Node.bodyItems, emitStatements, Node.span, bind_assoc, pure_bind]

theorem emitStatement_of_not_isFunction {item : Node} (h : item.isFunction = false)
    (hoisted : List ValueId) : emitStatement builtin hoisted item =
      (do return (← emit builtin item, hoisted)) := by
  cases item with
  | function => cases h
  | _ =>
    rw [emitStatement]
    · simp
    · simp

/-- Statements take as many of the numbers that were set aside as functions are declared. -/
def Takes (hoisted : List ValueId) (count k : Nat) (gs : List Given) : Prop :=
  ∃ rest, (functions gs).map Prod.fst ++ rest = hoisted ∧ (functions gs).length = count ∧
    widths gs ≤ k

/-- The value of statements. -/
theorem statements_follows {items : List Node} {k : Nat} (span : Span)
    (h : ∀ ids, Follows (emitStatements builtin ids items) (Node.emitStatements builtin ids items)
      fun _ gs _ => Takes ids (Node.functionCount items) k gs) {ids : List ValueId}
    (hids : ids.length = Node.functionCount items) :
    Follows (do watch (Emit.conclude builtin span (← emitStatements builtin ids items)))
      (do Emit.conclude builtin span (← Node.emitStatements builtin ids items)) (Closed ids k) := by
  refine (h ids).bind fun last => (conclude_follows builtin span last).mono ?_
  rintro result hs s' ⟨hh, hlast⟩ gs s₁ ⟨rest, hrest, hcount, hk⟩
  refine ⟨?_, hlast, by rw [Given.widths_append, Given.widths_eq_zero hh]; exact hk⟩
  have hnil : rest = [] := by
    have hlen := congrArg List.length hrest
    rw [List.length_append, List.length_map, hcount, hids] at hlen
    exact List.length_eq_zero_iff.mp (by omega)
  rw [Given.functions_append, hh, List.append_nil, ← hrest, hnil, List.append_nil]

/-- Recording goes along with compiling, and takes the numbers that were set aside. -/
theorem emitStatements_follows :
    (∀ (item : Node) (hoisted : List ValueId),
      Follows (emitStatement builtin hoisted item) (Node.emitStatement builtin hoisted item)
        fun r gs _ => (functions gs).map Prod.fst ++ r.2 = hoisted ∧
          (functions gs).length = Node.functionCount [item] ∧ widths gs ≤ item.weight) ∧
    ∀ (items : List Node) (hoisted : List ValueId),
      Follows (emitStatements builtin hoisted items) (Node.emitStatements builtin hoisted items)
        fun _ gs _ => Takes hoisted (Node.functionCount items) (Node.weights items) gs := by
  refine Node.statement_induct ?function ?expression ?nil ?single ?cons
  case function =>
    intro span name params body ih hoisted
    rw [emitStatement_function, Node.emitStatement_function]
    have hscope := scope_follows params span hoisted
      fun ids hids => statements_follows body.span ih hids
    simp only [bind_assoc] at hscope
    refine hscope.mono fun r gs s' h => ⟨h.1, h.2.1, ?_⟩
    have := Node.weights_bodyItems_le body
    rw [Node.weight]
    omega
  case expression =>
    intro item hitem hoisted
    rw [emitStatement_of_not_isFunction hitem, Node.emitStatement_of_not_isFunction hitem]
    refine (emit_follows item).bind fun id => .pure (id, hoisted) fun s gs s₁ hg => ?_
    rw [List.append_nil, show functions gs = [] from hg, Node.functionCount,
      List.countP_cons_of_neg (by simp [hitem]), Given.widths_eq_zero hg]
    exact ⟨rfl, rfl, Nat.zero_le _⟩
  case nil =>
    intro hoisted
    rw [emitStatements, Node.emitStatements]
    exact .pure none fun s => ⟨hoisted, rfl, rfl, by rw [widths]; exact Nat.zero_le _⟩
  case single =>
    intro item ih hoisted
    rw [emitStatements, Node.emitStatements]
    refine (ih hoisted).bind fun r => .pure _ fun s gs s₁ hg => ?_
    rw [List.append_nil, Node.weights, Node.weights]
    exact ⟨r.2, hg⟩
  case cons =>
    intro item item' items ih ihs hoisted
    rw [emitStatements.eq_3 builtin _ _ _ (by simp), Node.emitStatements.eq_3 builtin _ _ _ (by simp)]
    refine (ih hoisted).bind fun r => (ihs r.2).mono ?_
    rintro last hs s' ⟨rest, hrest, hcount, hk⟩ gs s₁ ⟨htake, hone, hk₁⟩
    refine ⟨rest, ?_, ?_, ?_⟩
    · rw [Given.functions_append, List.map_append, List.append_assoc, hrest, htake]
    · rw [Given.functions_append, List.length_append, hcount, hone, ← Node.functionCount_cons]
    · rw [Given.widths_append, Node.weights]
      exact Nat.add_le_add hk₁ hk

end Recorder

/-- **Every program that compiles has an orderly record**, whose instructions are those of the
unit. -/
theorem Node.record_compile {builtin : String → Option ValueId} {root : Node} {code : Code}
    (h : root.compile builtin = .ok code) : ∃ n, root.record builtin = .ok n ∧
      n.first = 0 ∧ n.params = [] ∧ Given.OrderlyScope 0 n ∧
      Given.codes n.given = code.instructions ∧ Given.widths n.given ≤ root.weight := by
  obtain ⟨span, items, id, s, constants, rfl, hp, -, rfl⟩ := compile_eq_ok h
  obtain ⟨ids, s₁, h₁, h₂⟩ := Emit.bind_eq_ok hp
  obtain ⟨gs, hbody, -, hi, hids, ho, hf, hr, hk⟩ := Recorder.body_eq_ok
    (fun ids hids => Recorder.statements_follows span (Recorder.emitStatements_follows.2 items) hids)
    h₁ h₂
  refine ⟨⟨0, [], ids, gs, id⟩, ?_, rfl, rfl, ?_, ?_, ?_⟩
  · rw [record]
    refine (congrArg (· >>= _) hbody).trans ?_
    rfl
  · rw [Given.OrderlyScope]
    refine ⟨rfl, rfl, ?_, ?_, hf, ?_⟩
    · exact hids
    · rw [List.length_nil, Nat.zero_add]
      exact ho
    · simpa [Scope.startingAt] using hr
  · simpa using hi.symm
  · rw [weight]
    exact Nat.le_succ_of_le hk

end Dataflow
