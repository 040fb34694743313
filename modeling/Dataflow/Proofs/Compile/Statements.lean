import Dataflow.Proofs.Compile.Emission

/-!
# What compiling a program emits

The functions of a scope are numbered before its statements are compiled, and each of them becomes
one segment. A body is never empty: if its value was not made in it, it is copied.

* `Emission.Hoists`: functions that have been numbered;
* `Emission.Body`: what the statements of a scope are compiled to;
* `Node.statement_induct`: induction on statements;
* `Node.StatementExtends`, `Node.StatementsExtend`: what statements are compiled to;
* **`Node.compile_segments`**: a unit consists of sound segments.
-/

namespace Dataflow

/-- How many numbers a statement may take when its functions have been numbered. -/
def Node.ownWeight : Node → Nat
  | .function _ _ params body => params.length + body.weight + 1
  | other => other.weight

/-- How many numbers statements may take when their functions have been numbered. -/
def Node.ownWeights (items : List Node) : Nat := (items.map Node.ownWeight).sum

/-- How many functions are declared directly among statements. -/
def Node.functionCount (items : List Node) : Nat := items.countP Node.isFunction

theorem Node.weight_pos (item : Node) : 0 < item.weight := by
  cases item <;> simp [weight]

theorem Node.weight_eq (item : Node) :
    item.weight = functionCount [item] + item.ownWeight := by
  cases item with
  | function => simp [functionCount, ownWeight, weight, isFunction]; omega
  | _ => simp [functionCount, ownWeight, isFunction]

theorem Node.functionCount_cons (item : Node) (items : List Node) :
    functionCount (item :: items) = functionCount [item] + functionCount items := by
  rw [functionCount, ← List.singleton_append, List.countP_append, functionCount, functionCount]

theorem Node.weights_eq (items : List Node) :
    weights items = functionCount items + ownWeights items := by
  induction items with
  | nil => rfl
  | cons item items ih =>
    have ho : ownWeights (item :: items) = item.ownWeight + ownWeights items := by
      simp [ownWeights]
    rw [weights, ih, item.weight_eq, functionCount_cons item items, ho]
    omega

namespace Emission

variable {builtins : ValueId → Prop} {s s₁ s₂ s' : Emission} {n k : Nat}

/-! ## Numbering functions -/

/-- Functions have been given the numbers from `n` on. -/
structure Hoists (builtins : ValueId → Prop) (s : Emission) (n count : Nat) (ids : List ValueId)
    (s' : Emission) : Prop where
  sound : s'.Sound builtins (n + count)
  around : s'.around = s.around
  instructions : s'.instructions = s.instructions
  pool : s'.pool = s.pool
  ids : ids = (List.range' n count).map Int32.ofNat
  last : s'.scope.last = if count = 0 then s.scope.last else some (.ofNat (n + count - 1))

theorem Sound.allocate (h : s.Sound builtins n) (hn : n + 1 < 2 ^ 31) (name : String) :
    Sound builtins { s with scope := (s.scope.allocate.2).bind name (.ofNat n) } (n + 1) := by
  refine ⟨?_, h.pool, fun e he => ?_,
    fun scope hs e he => (h.outer scope hs e he).mono (Nat.le_succ n),
    fun e he => (h.literals e he).mono (Nat.le_succ n)⟩
  · show s.scope.next + 1 = _
    rw [h.next]
    exact (Int32.ofNat_add n 1).symm
  · rcases List.mem_cons.mp he with rfl | he
    · exact operand_ofNat (Nat.lt_succ_self n) (by omega)
    · exact (h.names e he).mono (Nat.le_succ n)

theorem Sound.hoist (h : s.Sound builtins n) (items : List Node)
    (hn : n + Node.functionCount items < 2 ^ 31) {ids : List ValueId}
    (he : Emit.hoist items s = .ok (ids, s')) :
    Hoists builtins s n (Node.functionCount items) ids s' := by
  induction items generalizing s n ids with
  | nil =>
    obtain ⟨rfl, rfl⟩ := Emit.pure_eq_ok he
    exact ⟨h, rfl, rfl, rfl, rfl, by simp [Node.functionCount]⟩
  | cons item items ih =>
    cases item with
    | function span name params body =>
      have hc : Node.functionCount (.function span name params body :: items) =
          Node.functionCount items + 1 := List.countP_cons_of_pos rfl
      rw [hc] at hn ⊢
      rw [Emit.hoist] at he
      obtain ⟨_, s₁, h₁, he⟩ := Emit.bind_eq_ok he
      obtain ⟨id, s₂, h₂, he⟩ := Emit.bind_eq_ok he
      obtain ⟨_, s₃, h₃, he⟩ := Emit.bind_eq_ok he
      obtain ⟨ids', s₄, h₄, he⟩ := Emit.bind_eq_ok he
      obtain ⟨rfl, rfl⟩ := Emit.pure_eq_ok he
      obtain ⟨rfl, -⟩ := Emit.requireFree_eq_ok h₁
      cases h₂
      cases h₃
      have hs := h.allocate (by omega) name
      rw [← h.next] at hs
      have hi := ih hs (by omega) h₄
      refine ⟨?_, hi.around, hi.instructions, hi.pool, ?_, ?_⟩
      · rw [← Nat.add_assoc, Nat.add_right_comm]
        exact hi.sound
      · rw [hi.ids, List.range'_succ, List.map_cons, h.next]
      · rw [hi.last, if_neg (Nat.succ_ne_zero _)]
        split
        · rename_i h0
          rw [h0]
          show some s₁.scope.next = _
          rw [h.next]
          rfl
        · congr 2
          omega
    | _ =>
      rw [Emit.hoist] at he
      · have hi := ih h (by simpa [Node.functionCount, Node.isFunction] using hn) he
        simpa [Node.functionCount, Node.isFunction] using hi
      · simp

/-! ## Function bodies -/

/-- Parameters have been given the numbers from `n` on. -/
theorem parameters_eq_ok (builtins : ValueId → Prop) {span : Span} (seen names : List String) {scope scope' : Scope}
    (hn : scope.next = .ofNat n) (hfit : n + names.length < 2 ^ 31)
    (he : Emit.enter.parameters span seen names scope s = .ok (scope', s')) :
    s' = s ∧ scope'.next = .ofNat (n + names.length) ∧ scope'.literals = scope.literals ∧
      ∀ e ∈ scope'.names, e ∈ scope.names ∨ Operand builtins (n + names.length) e.2 := by
  induction names generalizing seen scope n with
  | nil =>
    obtain ⟨rfl, rfl⟩ := Emit.pure_eq_ok he
    exact ⟨rfl, hn, rfl, fun e he => .inl he⟩
  | cons name names ih =>
    rw [Emit.enter.parameters] at he
    split at he
    · exact absurd he Emit.fail_ne_ok
    · simp only [List.length_cons] at hfit
      have hnext : ((scope.allocate.2).bind name scope.allocate.1).next = .ofNat (n + 1) := by
        show scope.next + 1 = _
        rw [hn]
        exact (Int32.ofNat_add n 1).symm
      obtain ⟨hs, hx, hl, hnames⟩ := ih _ hnext (by omega) he
      have hlen : n + 1 + names.length = n + (name :: names).length := by
        rw [List.length_cons]
        omega
      rw [hlen] at hx hnames
      refine ⟨hs, hx, hl, fun e he => ?_⟩
      rcases hnames e he with he | he
      · rcases List.mem_cons.mp he with rfl | he
        · refine .inr ?_
          show Operand builtins _ scope.next
          rw [hn]
          exact operand_ofNat (by rw [List.length_cons]; omega) (by omega)
        · exact .inl he
      · exact .inr he

/-- A function body that has been opened. -/
theorem Sound.enter (h : s.Sound builtins n) {params : List String} {span : Span} {u : Unit}
    (hn : n + params.length < 2 ^ 31) (he : Emit.enter params span s = .ok (u, s')) :
    s'.Sound builtins (n + params.length) ∧ s'.around = s.scope :: s.around ∧
      s'.instructions = s.instructions.push (.enter (.ofNat params.length)) ∧ s'.pool = s.pool ∧
      s'.scope.last = none := by
  obtain ⟨_, s₁, h₁, he⟩ := Emit.bind_eq_ok he
  cases h₁
  obtain ⟨_, s₂, h₂, he⟩ := Emit.bind_eq_ok he
  cases h₂
  obtain ⟨scope, s₃, h₃, he⟩ := Emit.bind_eq_ok he
  cases he
  have hstart : (Scope.startingAt s.scope.next).next = .ofNat n := h.next
  obtain ⟨-, hx, hl, hnames⟩ := parameters_eq_ok builtins [] params hstart hn h₃
  refine ⟨⟨hx, h.pool, fun e he => ?_, fun scope' hs e he => ?_, fun e he => ?_⟩, rfl, rfl, rfl, rfl⟩
  · rcases hnames e he with he | he
    · cases he
    · exact he
  · rcases List.mem_cons.mp hs with rfl | hs
    · exact (h.names e he).mono (Nat.le_add_right _ _)
    · exact (h.outer scope' hs e he).mono (Nat.le_add_right _ _)
  · have he' : e ∈ scope.literals := he
    rw [hl] at he'
    cases he'

/-- The statements of a scope: the functions among them have the numbers from `n` on, and there is
something for the value of the last one. -/
structure Body (builtins : ValueId → Prop) (s : Emission) (n k : Nat) (ps : List Segment)
    (s' : Emission) : Prop where
  sound : s'.Sound builtins (n + Segment.functions ps + Segment.values ps)
  around : s'.around = s.around
  instructions : s'.instructions.toList = s.instructions.toList ++ Segment.codes ps
  segments : Segment.AllSound (n + Segment.functions ps) ps
  served : ∀ i ∈ Segment.codes ps, i.Served builtins s'.pool.Holds
  pool : s.pool.Le s'.pool
  numbers_le : Segment.functions ps + Segment.values ps ≤ k
  size_le : s'.pool.size ≤ s.pool.size + k
  nonempty : s.scope.last = none → ps ≠ []

theorem Body.of_extends {count : Nat} {ids : List ValueId} {id : ValueId} {ps : List Segment}
    (hh : Hoists builtins s n count ids s₁) (hx : Extends builtins s₁ (n + count) k ps s')
    (hf : Segment.functions ps = count) (hlast : s'.scope.last = some id) :
    Body builtins s n (count + k) ps s' := by
  have hv := hx.values_le
  have hs := hx.size_le
  rw [hh.pool] at hs
  refine ⟨?_, hx.around.trans hh.around, ?_, ?_, hx.served, hh.pool ▸ hx.pool, by omega, by omega,
    fun hnone hps => ?_⟩
  · rw [hf]
    exact hx.sound
  · rw [hx.instructions, hh.instructions]
  · rw [hf]
    exact hx.segments
  · subst hps
    rw [hx.last, hh.last, ← hf, hnone] at hlast
    simp [Segment.values, Segment.functions] at hlast

/-- A function whose body has been closed is one segment, and the scope around it is as before. -/
theorem Body.leave {params : List String} {ps : List Segment} {u : Unit} (h : s.Sound builtins n)
    (hr : s.Room n (params.length + k)) (ha : s₁.around = s.scope :: s.around)
    (hi : s₁.instructions = s.instructions.push (.enter (.ofNat params.length)))
    (hp : s₁.pool = s.pool) (hlast : s₁.scope.last = none)
    (hb : Body builtins s₁ (n + params.length) k ps s₂) (he : Emit.leave s₂ = .ok (u, s')) :
    Extends builtins s n (params.length + k) [.function (.ofNat params.length) ps] s' := by
  have hs' : s' = { s₂ with
      scope := s.scope, around := s.around, instructions := s₂.instructions.push .leave } := by
    have ha₂ := hb.around.trans ha
    obtain ⟨scope₂, around₂, pool₂, instructions₂⟩ := s₂
    cases ha₂
    cases he
    rfl
  subst hs'
  have hnum := hr.numbers
  have hle := hb.numbers_le
  have hsize := hb.size_le
  rw [hp] at hsize
  have hparams : (UInt32.ofNat params.length).toNat = params.length :=
    UInt32.toNat_ofNat_of_lt' (by show _ < 2 ^ 32; omega)
  refine ⟨⟨h.next, hb.sound.pool, h.names, h.outer, h.literals⟩, rfl, ?_, ?_, ?_, hp ▸ hb.pool,
    Nat.zero_le _, by show s₂.pool.size ≤ _; omega, by simp [Segment.values]⟩
  · show (s₂.instructions.push _).toList = _
    rw [Array.toList_push, hb.instructions, hi, Array.toList_push]
    simp [Segment.codes, Segment.code]
  · rw [Segment.AllSound, Segment.AllSound, Segment.Sound, hparams]
    exact ⟨⟨hb.nonempty hlast, by omega, hb.segments⟩, trivial⟩
  · intro i hmem
    simp only [Segment.codes, Segment.code, List.append_nil, List.cons_append, List.mem_cons,
      List.mem_append, List.not_mem_nil, or_false] at hmem
    rcases hmem with rfl | hmem | rfl
    · trivial
    · exact hb.served i hmem
    · trivial

end Emission

/-! ## Statements -/

namespace Node

open Emission

variable {builtin : String → Option ValueId} {builtins : ValueId → Prop}

/-- A statement that is not a function is an expression. -/
theorem emitStatement_of_not_isFunction {item : Node} (h : item.isFunction = false)
    (hoisted : List ValueId) : emitStatement builtin hoisted item =
      (do return (← emit builtin item, hoisted)) := by
  cases item with
  | function => cases h
  | _ =>
    rw [emitStatement]
    simp

theorem emitStatement_expression (hb : ∀ {name id}, builtin name = some id → id < 0 ∧ builtins id)
    {item : Node} (hitem : item.isFunction = false) {hoisted hoisted' : List ValueId}
    {s s' : Emission} {n : Nat} {id : ValueId} (h : s.Sound builtins n)
    (hr : s.Room n item.ownWeight)
    (he : emitStatement builtin hoisted item s = .ok ((id, hoisted'), s')) :
    hoisted' = hoisted ∧ ∃ ps, Extends builtins s n item.ownWeight ps s' ∧
      Operand builtins (n + Segment.values ps) id ∧ Segment.functions ps = 0 := by
  have hw : item.ownWeight = item.weight := by
    cases item with
    | function => cases hitem
    | _ => rfl
  rw [hw] at hr ⊢
  rw [emitStatement_of_not_isFunction hitem] at he
  obtain ⟨id', s₁, h₁, he⟩ := Emit.bind_eq_ok he
  obtain ⟨hid, rfl⟩ := Emit.pure_eq_ok he
  cases hid
  exact ⟨rfl, emit_extends hb item h hr h₁⟩

theorem exists_of_isFunction {item : Node} (h : item.isFunction = true) :
    ∃ span name params body, item = .function span name params body := by
  cases item with
  | function span name params body => exact ⟨_, _, _, _, rfl⟩
  | _ => cases h

/-- The statements of a function body. -/
def bodyItems : Node → List Node
  | .list _ items => items
  | other => [other]

theorem weights_bodyItems_le (body : Node) : weights body.bodyItems ≤ body.weight := by
  cases body with
  | list => simp [bodyItems, weight]
  | _ => simp [bodyItems, weights]

/-- The number of the next function, and those of the functions after it. -/
def takeNumber (span : Span) : List ValueId → Emit (ValueId × List ValueId)
  | id :: hoisted => return (id, hoisted)
  | [] => Emit.fail .notAList span

/-- A body that is not a list is compiled like a list of one statement. -/
theorem emitStatement_function (hoisted : List ValueId) (span : Span) (name : String)
    (params : List String) (body : Node) :
    emitStatement builtin hoisted (.function span name params body) = (do
      Emit.enter params span
      let inner ← Emit.hoist body.bodyItems
      let _ ← Emit.conclude builtin body.span (← emitStatements builtin inner body.bodyItems)
      Emit.leave
      takeNumber span hoisted) := by
  cases hoisted <;> cases body <;>
    simp only [emitStatement, bodyItems, emitStatements, Node.span, bind_assoc, pure_bind,
      takeNumber]

/-- **Induction on statements**: the body of a function consists of statements, and any other
statement is an expression. -/
theorem statement_induct {P : Node → Prop} {Q : List Node → Prop}
    (function : ∀ span name params body, Q body.bodyItems → P (.function span name params body))
    (expression : ∀ item, item.isFunction = false → P item) (nil : Q [])
    (single : ∀ item, P item → Q [item])
    (cons : ∀ item item' items, P item → Q (item' :: items) → Q (item :: item' :: items)) :
    (∀ item, P item) ∧ ∀ items, Q items := by
  -- the items of a body are no subterms of the function, but they weigh less
  have bounded (w : Nat) : (∀ item : Node, item.weight ≤ w → P item) ∧
      ∀ items, weights items ≤ w → Q items := by
    induction w with
    | zero =>
      refine ⟨fun item h => absurd item.weight_pos (Nat.not_lt.mpr h), fun items h => ?_⟩
      cases items with
      | nil => exact nil
      | cons item items =>
        rw [weights] at h
        have := item.weight_pos
        omega
    | succ w ih =>
      have statement (item : Node) (h : item.weight ≤ w + 1) : P item := by
        cases hitem : item.isFunction with
        | true =>
          obtain ⟨span, name, params, body, rfl⟩ := exists_of_isFunction hitem
          rw [weight] at h
          have := weights_bodyItems_le body
          exact function span name params body (ih.2 _ (by omega))
        | false => exact expression item hitem
      refine ⟨statement, fun items h => ?_⟩
      match items with
      | [] => exact nil
      | [item] => exact single item (statement item (by simpa [weights] using h))
      | item :: item' :: items =>
        rw [weights] at h
        have := item.weight_pos
        exact cons item item' items (statement item (by omega)) (ih.2 _ (by omega))
  exact ⟨fun item => (bounded _).1 item (Nat.le_refl _),
    fun items => (bounded _).2 items (Nat.le_refl _)⟩

/-- Compiling a statement appends segments: one for a function, and those of its values for
anything else. -/
def StatementExtends (builtin : String → Option ValueId) (builtins : ValueId → Prop)
    (item : Node) : Prop :=
  ∀ {hoisted hoisted' : List ValueId} {s s' : Emission} {n : Nat} {id : ValueId},
    s.Sound builtins n → s.Room n item.ownWeight → (∀ id ∈ hoisted, Operand builtins n id) →
    emitStatement builtin hoisted item s = .ok ((id, hoisted'), s') →
    hoisted' <:+ hoisted ∧ ∃ ps, Extends builtins s n item.ownWeight ps s' ∧
      Operand builtins (n + Segment.values ps) id ∧ Segment.functions ps = functionCount [item]

/-- Compiling statements whose functions have been numbered appends their segments. -/
def StatementsExtend (builtin : String → Option ValueId) (builtins : ValueId → Prop)
    (items : List Node) : Prop :=
  ∀ {hoisted : List ValueId} {s s' : Emission} {n : Nat} {last : Option (ValueId × Bool)},
    s.Sound builtins n → s.Room n (ownWeights items) → (∀ id ∈ hoisted, Operand builtins n id) →
    emitStatements builtin hoisted items s = .ok (last, s') →
    ∃ ps, Extends builtins s n (ownWeights items) ps s' ∧
      (∀ x ∈ last, Operand builtins (n + Segment.values ps) x.1) ∧
      Segment.functions ps = functionCount items

/-- Compiling the statements of a scope. -/
theorem StatementsExtend.body (hb : ∀ {name id}, builtin name = some id → id < 0 ∧ builtins id)
    {items : List Node} (hitems : StatementsExtend builtin builtins items) {hoisted : List ValueId}
    {s s₁ s₂ s' : Emission} {n : Nat} {last : Option (ValueId × Bool)} {span : Span} {id : ValueId}
    (h : s.Sound builtins n) (hr : s.Room n (weights items + 1))
    (h₁ : Emit.hoist items s = .ok (hoisted, s₁))
    (h₂ : emitStatements builtin hoisted items s₁ = .ok (last, s₂))
    (h₃ : Emit.conclude builtin span last s₂ = .ok (id, s')) :
    ∃ ps, Body builtins s n (weights items + 1) ps s' := by
  have hw := weights_eq items
  have hhoist := h.hoist items (by have := hr.numbers; omega) h₁
  have hr₁ : s₁.Room (n + functionCount items) (ownWeights items + 1) :=
    ⟨by have := hr.numbers; omega, by have := hr.constants; rw [hhoist.pool]; omega⟩
  have hids : ∀ id ∈ hoisted, Operand builtins (n + functionCount items) id := by
    intro id hid
    rw [hhoist.ids] at hid
    obtain ⟨m, hm, rfl⟩ := List.mem_map.mp hid
    rw [List.mem_range'_1] at hm
    exact operand_ofNat hm.2 (by have := hr₁.numbers; omega)
  obtain ⟨ps, hx, hlast, hf⟩ := hitems hhoist.sound (hr₁.mono (Nat.le_succ _)) hids h₂
  obtain ⟨qs, hx', -, hf', hl⟩ := hx.sound.conclude hb (hr₁.rest hx) hlast h₃
  refine ⟨ps ++ qs, ?_⟩
  rw [hw, Nat.add_assoc]
  exact .of_extends hhoist (hx.trans hx') (by rw [Segment.functions_append, hf, hf', Nat.add_zero]) hl

theorem StatementExtends.function (hb : ∀ {name id}, builtin name = some id → id < 0 ∧ builtins id)
    (span : Span) (name : String) (params : List String) (body : Node)
    (hbody : StatementsExtend builtin builtins body.bodyItems) :
    StatementExtends builtin builtins (.function span name params body) := by
  intro hoisted hoisted' s s' n id h hr hh he
  rw [ownWeight] at hr ⊢
  rw [emitStatement_function] at he
  obtain ⟨_, s₁, h₁, he⟩ := Emit.bind_eq_ok he
  obtain ⟨inner, s₂, h₂, he⟩ := Emit.bind_eq_ok he
  obtain ⟨last, s₃, h₃, he⟩ := Emit.bind_eq_ok he
  obtain ⟨result, s₄, h₄, he⟩ := Emit.bind_eq_ok he
  obtain ⟨_, s₅, h₅, he⟩ := Emit.bind_eq_ok he
  obtain ⟨hs₁, ha, hi, hp, hlast⟩ := h.enter (by have := hr.numbers; omega) h₁
  have hle := weights_bodyItems_le body
  have hr' : s.Room n (params.length + (weights body.bodyItems + 1)) := hr.mono (by omega)
  have hr₁ : s₁.Room (n + params.length) (weights body.bodyItems + 1) :=
    ⟨by have := hr'.numbers; omega, by have := hr'.constants; rw [hp]; omega⟩
  obtain ⟨ps, hps⟩ := hbody.body hb hs₁ hr₁ h₂ h₃ h₄
  have hk : params.length + (weights body.bodyItems + 1) ≤ params.length + body.weight + 1 := by
    omega
  have hx := (hps.leave h hr' ha hi hp hlast h₅).mono hk
  cases hoisted with
  | nil => cases he
  | cons id' hoisted =>
    obtain ⟨heq, rfl⟩ := Emit.pure_eq_ok he
    cases heq
    exact ⟨List.suffix_cons _ _, _, hx, hh _ List.mem_cons_self, rfl⟩

theorem StatementExtends.expression
    (hb : ∀ {name id}, builtin name = some id → id < 0 ∧ builtins id) (item : Node)
    (hitem : item.isFunction = false) : StatementExtends builtin builtins item := by
  intro hoisted hoisted' s s' n id h hr _ he
  obtain ⟨rfl, ps, hx, hid, hf⟩ := emitStatement_expression hb hitem h hr he
  refine ⟨List.suffix_refl _, ps, hx, hid, ?_⟩
  rw [hf, functionCount, List.countP_cons_of_neg (by simp [hitem]), List.countP_nil]

theorem StatementsExtend.nil : StatementsExtend builtin builtins [] := by
  intro hoisted s s' n last h hr hh he
  rw [emitStatements] at he
  obtain ⟨rfl, rfl⟩ := Emit.pure_eq_ok he
  exact ⟨[], .refl h, by simp, rfl⟩

theorem StatementsExtend.single (item : Node) (hitem : StatementExtends builtin builtins item) :
    StatementsExtend builtin builtins [item] := by
  intro hoisted s s' n last h hr hh he
  have hw : ownWeights [item] = item.ownWeight := by simp [ownWeights]
  rw [hw] at hr ⊢
  rw [emitStatements] at he
  obtain ⟨x, s₁, h₁, he⟩ := Emit.bind_eq_ok he
  obtain ⟨rfl, rfl⟩ := Emit.pure_eq_ok he
  obtain ⟨-, ps, hx, hid, hf⟩ := hitem h hr hh h₁
  exact ⟨ps, hx, by simpa using hid, hf⟩

theorem StatementsExtend.cons (item item' : Node) (items : List Node)
    (hitem : StatementExtends builtin builtins item)
    (hitems : StatementsExtend builtin builtins (item' :: items)) :
    StatementsExtend builtin builtins (item :: item' :: items) := by
  intro hoisted s s' n last h hr hh he
  have hw : ownWeights (item :: item' :: items) = item.ownWeight + ownWeights (item' :: items) := by
    simp [ownWeights]
  rw [hw] at hr ⊢
  rw [emitStatements.eq_3 builtin _ _ _ (by simp)] at he
  obtain ⟨x, s₁, h₁, he⟩ := Emit.bind_eq_ok he
  obtain ⟨hsuf, ps, hx, -, hf⟩ := hitem h (hr.mono (Nat.le_add_right _ _)) hh h₁
  obtain ⟨qs, hx', hlast, hf'⟩ := hitems hx.sound (hr.rest hx)
    (fun id hid => (hh id (hsuf.subset hid)).mono (Nat.le_add_right _ _)) he
  refine ⟨ps ++ qs, hx.trans hx', ?_, ?_⟩
  · rw [Segment.values_append, ← Nat.add_assoc]
    exact hlast
  · rw [Segment.functions_append, hf, hf', ← functionCount_cons]

/-- **Every list of statements compiles to segments.** -/
theorem statements_extend (hb : ∀ {name id}, builtin name = some id → id < 0 ∧ builtins id)
    (items : List Node) : StatementsExtend builtin builtins items :=
  (statement_induct (StatementExtends.function hb) (StatementExtends.expression hb)
    StatementsExtend.nil StatementsExtend.single StatementsExtend.cons).2 items

/-- The statements of a program and its value. -/
def program (builtin : String → Option ValueId) (span : Span) (items : List Node) :
    Emit ValueId := do
  let hoisted ← Emit.hoist items
  Emit.conclude builtin span (← emitStatements builtin hoisted items)

theorem compile_list {span : Span} {items : List Node} {id : ValueId} {s : Emission}
    {constants : List Constant}
    (hp : program builtin span items ⟨.startingAt 0, [], .empty, #[]⟩ = .ok (id, s))
    (hl : s.pool.layout = .ok constants) :
    compile builtin (.list span items) = .ok ⟨.zero, constants, s.instructions.toList⟩ := by
  unfold compile
  refine (congrArg (· >>= _) hp).trans ?_
  simp only [bind, Except.bind, hl]
  rfl

/-- A program that compiles is a list of statements, and its constants are laid out in the end. -/
theorem compile_eq_ok {root : Node} {code : Code} (he : root.compile builtin = .ok code) :
    ∃ span items id s constants, root = .list span items ∧
      program builtin span items ⟨.startingAt 0, [], .empty, #[]⟩ = .ok (id, s) ∧
      s.pool.layout = .ok constants ∧ code = ⟨.zero, constants, s.instructions.toList⟩ := by
  cases root with
  | list span items =>
    refine ⟨span, items, ?_⟩
    cases hp : program builtin span items ⟨.startingAt 0, [], .empty, #[]⟩ with
    | error e =>
      have h : compile builtin (.list span items) = .error e := by
        unfold compile
        exact congrArg (· >>= _) hp
      rw [h] at he
      cases he
    | ok r =>
      obtain ⟨id, s⟩ := r
      cases hl : s.pool.layout with
      | error cause =>
        have h : compile builtin (.list span items) = .error ⟨cause, span⟩ := by
          unfold compile
          refine (congrArg (· >>= _) hp).trans ?_
          simp only [bind, Except.bind, hl]
        rw [h] at he
        cases he
      | ok constants =>
        rw [compile_list hp hl] at he
        cases he
        exact ⟨id, s, constants, rfl, rfl, hl, rfl⟩
  | _ => cases he

theorem sound_start : Emission.Sound builtins ⟨.startingAt 0, [], .empty, #[]⟩ 0 :=
  ⟨rfl, Pool.sound_empty, by simp [Scope.startingAt], by simp, by simp [Scope.startingAt]⟩

/-- **A unit consists of sound segments**: they read only values that have been made before,
built-in values that are there and constants of the unit that can be decoded. -/
theorem compile_segments (hb : ∀ {name id}, builtin name = some id → id < 0 ∧ builtins id)
    {root : Node} {code : Code} (hw : root.weight < 2 ^ 31) (he : root.compile builtin = .ok code) :
    ∃ ps, code.instructions = Segment.codes ps ∧ ps ≠ [] ∧
      Segment.functions ps + Segment.values ps < 2 ^ 31 ∧ Segment.AllSound (Segment.functions ps) ps ∧
      ∀ i ∈ code.instructions, i.Served builtins fun id c => code.constants[id.toNat]? = some c := by
  obtain ⟨span, items, id, s, constants, rfl, hp, hl, rfl⟩ := compile_eq_ok he
  rw [weight] at hw
  obtain ⟨hoisted, s₁, h₁, hp⟩ := Emit.bind_eq_ok hp
  obtain ⟨last, s₂, h₂, h₃⟩ := Emit.bind_eq_ok hp
  have hr : Emission.Room ⟨.startingAt 0, [], .empty, #[]⟩ 0 (weights items + 1) :=
    ⟨by omega, by show 0 + _ < _; omega⟩
  obtain ⟨ps, hbody⟩ := StatementsExtend.body hb (statements_extend hb items) sound_start hr
    h₁ h₂ h₃
  have hi : s.instructions.toList = Segment.codes ps := by simpa using hbody.instructions
  have hn := hbody.numbers_le
  refine ⟨ps, hi, hbody.nonempty rfl, by omega, by simpa using hbody.segments, fun i hmem => ?_⟩
  rw [hi] at hmem
  exact (hbody.served i hmem).mono fun hc => hbody.sound.pool.getElem?_layout hl hc

end Node

end Dataflow
