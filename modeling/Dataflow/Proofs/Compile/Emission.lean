import Dataflow.Compile.Emit
import Dataflow.Proofs.Compile.Pool
import Dataflow.Proofs.Graph.Segments

/-!
# What compiling a tree emits

Every tree is compiled to segments that read only values with smaller numbers, or built-in values
that the environment has. What names and literals stand for has been numbered before, so this is kept by
every step of compiling.

* `Node.weight`: how many numbers a tree may take;
* `Operand`, `Instruction.Served`: what an operand may name, and when an instruction has all it
  needs;
* `Emission.Sound`: all that is known in the scopes has been numbered;
* `Emission.Extends`: what is compiled is compiled to segments;
* **`Node.emit_extends`**: compiling an expression.
-/

namespace Dataflow

/-! ## Steps of compiling -/

namespace Emit

variable {α β : Type} {s s' : Emission}

theorem bind_ok {x : Emit α} {a : α} {s₁ : Emission} (hx : x s = .ok (a, s₁)) (f : α → Emit β) :
    (x >>= f) s = f a s₁ := by
  show (x s >>= fun r => f r.1 r.2) = _
  rw [hx]
  rfl

theorem bind_eq_ok {x : Emit α} {f : α → Emit β} {b : β} (h : (x >>= f) s = .ok (b, s')) :
    ∃ a s₁, x s = .ok (a, s₁) ∧ f a s₁ = .ok (b, s') := by
  cases hx : x s with
  | error e =>
    have he : (x >>= f) s = .error e := by
      show (x s >>= fun r => f r.1 r.2) = _
      rw [hx]
      rfl
    rw [he] at h
    cases h
  | ok r => exact ⟨r.1, r.2, rfl, (bind_ok hx f).symm.trans h⟩

theorem pure_eq_ok {a b : α} (h : (pure a : Emit α) s = .ok (b, s')) : b = a ∧ s' = s := by
  cases h
  exact ⟨rfl, rfl⟩

theorem fail_ne_ok {cause : CompileError.Cause} {span : Span} {a : α} :
    (fail cause span : Emit α) s ≠ .ok (a, s') := nofun

/-- A check that passes changes nothing. -/
theorem requireFree_eq_ok {name : String} {span : Span} {u : Unit}
    (h : requireFree name span s = .ok (u, s')) : s' = s ∧ s.scope.binds name = false := by
  unfold requireFree at h
  obtain ⟨s₁, s₂, hg, h⟩ := bind_eq_ok h
  cases hg
  split at h
  · exact absurd h fail_ne_ok
  · rename_i hb
    exact ⟨(pure_eq_ok h).2, by simpa using hb⟩

theorem requireNew_eq_ok {span : Span} {names : List String} (seen : List String) {u : Unit}
    (h : requireNew span seen names s = .ok (u, s')) : s' = s := by
  induction names generalizing seen s with
  | nil => exact (pure_eq_ok h).2
  | cons name names ih =>
    by_cases hn : name ∈ seen
    · have he : requireNew span seen (name :: names) s =
          (fail (.alreadyDefined name) span >>= fun _ : Unit => requireFree name span >>= fun _ =>
            requireNew span (seen ++ [name]) names : Emit Unit) s := by
        rw [requireNew, if_pos hn]
      rw [he] at h
      obtain ⟨_, s₁, h₁, -⟩ := bind_eq_ok h
      exact absurd h₁ fail_ne_ok
    · have he : requireNew span seen (name :: names) s =
          (requireFree name span >>= fun _ =>
            requireNew span (seen ++ [name]) names : Emit Unit) s := by
        rw [requireNew, if_neg hn]
      rw [he] at h
      obtain ⟨_, s₁, h₁, h⟩ := bind_eq_ok h
      rw [ih _ h, (requireFree_eq_ok h₁).1]

/-- The scope in which names are bound to one value. -/
def bound (scope : Scope) (names : List String) (value : ValueId) : Scope :=
  names.foldl (fun scope name => scope.bind name value) scope

theorem forM_bind (names : List String) (value : ValueId) (s : Emission) :
    (names.forM fun name => bind name value : Emit PUnit) s =
      .ok ((), { s with scope := bound s.scope names value }) := by
  induction names generalizing s with
  | nil => rfl
  | cons name names ih => exact ih _

theorem assign_eq_ok {names : List String} {value id : ValueId} {span : Span}
    (h : assign names value span s = .ok (id, s')) :
    id = value ∧ s' = { s with scope := bound s.scope names value } := by
  unfold assign at h
  obtain ⟨_, s₁, h₁, h⟩ := bind_eq_ok h
  obtain ⟨_, s₂, h₂, h⟩ := bind_eq_ok h
  obtain ⟨rfl, rfl⟩ := pure_eq_ok h
  rw [requireNew_eq_ok _ h₁, forM_bind] at h₂
  cases h₂
  exact ⟨rfl, rfl⟩

theorem requireField_eq_ok {field : String} {form : Form} {span : Span} {u : Unit}
    (h : requireField field form span s = .ok (u, s')) : s' = s := by
  unfold requireField at h
  cases hf : staticForms? field with
  | some forms =>
    simp only [hf] at h
    by_cases hc : forms.admits form = true
    · rw [if_pos hc] at h
      exact (pure_eq_ok h).2
    · rw [if_neg hc] at h
      exact absurd h fail_ne_ok
  | none =>
    simp only [hf] at h
    by_cases hc : form = .member ∧ isFieldName field = true
    · rw [if_pos hc] at h
      exact (pure_eq_ok h).2
    · rw [if_neg hc] at h
      exact absurd h fail_ne_ok

/-- An emission with further instructions. -/
def withInstructions (s : Emission) (is : List Instruction) : Emission :=
  { s with instructions := s.instructions ++ is.toArray }

/-- An emission in which the next number has been given to what was emitted. -/
def withValue (s : Emission) (is : List Instruction) : Emission :=
  { withInstructions s is with scope := s.scope.allocate.2 }

theorem emitValue_eq (i : Instruction) (s : Emission) :
    emitValue i s = .ok (s.scope.next, withValue s [i]) := rfl

theorem forM_argument (args : List ValueId) (s : Emission) :
    (args.forM fun id => emit (.argument id) : Emit PUnit) s =
      .ok ((), withInstructions s (args.map .argument)) := by
  induction args generalizing s with
  | nil => simp [withInstructions, List.forM]; rfl
  | cons a args ih =>
    have h := ih { s with instructions := s.instructions.push (.argument a) }
    refine Eq.trans (b := _) h ?_
    simp [withInstructions]

theorem call_eq (callee : ValueId) (args : List ValueId) (s : Emission) :
    call callee args s = .ok (s.scope.next, withValue s (args.map .argument ++ [.call callee])) := by
  refine (bind_ok (forM_argument args s) _).trans ?_
  rw [emitValue_eq]
  simp [withValue, withInstructions]

theorem resolve_eq_ok {builtin : String → Option ValueId} {name : String} {span : Span} {id : ValueId}
    (h : resolve builtin name span s = .ok (id, s')) : s' = s ∧
      ((s.scope :: s.around).findSome? (fun scope => scope.names.lookup name) = some id ∨
        (s.scope :: s.around).findSome? (fun scope => scope.names.lookup name) = none ∧
          builtin name = some id) := by
  unfold resolve at h
  obtain ⟨s₁, s₂, hg, h⟩ := bind_eq_ok h
  cases hg
  cases hf : (s.scope :: s.around).findSome? fun scope => scope.names.lookup name with
  | some id' =>
    simp only [hf] at h
    obtain ⟨rfl, rfl⟩ := pure_eq_ok h
    exact ⟨rfl, .inl rfl⟩
  | none =>
    simp only [hf] at h
    cases hb : builtin name with
    | some id' =>
      simp only [hb] at h
      obtain ⟨rfl, rfl⟩ := pure_eq_ok h
      exact ⟨rfl, .inr ⟨rfl, rfl⟩⟩
    | none =>
      simp only [hb] at h
      exact absurd h fail_ne_ok

end Emit

/-- The constant of a literal. -/
def Literal.constant : Literal → Constant
  | .int n => .ofInt n
  | .float x => .ofFloat x
  | .str s => .ofText s

theorem Literal.value?_constant (l : Literal) : l.constant.value?.isSome = true := by
  cases l with
  | int n => rw [constant, Constant.value?_ofInt]; rfl
  | float x => rw [constant, Constant.value?_ofFloat]; rfl
  | str s => rw [constant, Constant.value?_ofText]; rfl

namespace Emit

/-- An emission that knows the position of a constant. -/
def withConstant (s : Emission) (c : Constant) : Emission := { s with pool := (s.pool.intern c).2 }

/-- An emission that knows the value of a constant in the innermost scope. -/
def withLiteral (s : Emission) (c : ConstantId) (value : ValueId) : Emission :=
  { s with scope := { s.scope with literals := (c, value) :: s.scope.literals } }

theorem literal_eq_ok {l : Literal} {s s' : Emission} {id : ValueId}
    (h : literal l s = .ok (id, s')) :
    s.scope.literals.lookup (s.pool.intern l.constant).1 = some id ∧
        s' = withConstant s l.constant ∨
      s.scope.literals.lookup (s.pool.intern l.constant).1 = none ∧ id = s.scope.next ∧
        s' = withLiteral (withValue (withConstant s l.constant)
          [.constant (s.pool.intern l.constant).1]) (s.pool.intern l.constant).1 id := by
  unfold literal at h
  obtain ⟨c, s₁, h₁, h⟩ := bind_eq_ok h
  have hc : c = (s.pool.intern l.constant).1 ∧ s₁ = withConstant s l.constant := by
    cases l <;> cases h₁ <;> exact ⟨rfl, rfl⟩
  obtain ⟨rfl, rfl⟩ := hc
  obtain ⟨_, _, hg, h⟩ := bind_eq_ok h
  cases hg
  cases hl : s.scope.literals.lookup (s.pool.intern l.constant).1 with
  | some value =>
    simp only [withConstant, hl] at h
    obtain ⟨rfl, rfl⟩ := pure_eq_ok h
    exact .inl ⟨rfl, rfl⟩
  | none =>
    simp only [withConstant, hl] at h
    cases h
    exact .inr ⟨rfl, rfl, rfl⟩

end Emit

/-! ## What is known while compiling -/

mutual

/-- How many numbers the values of a tree may take. -/
def Node.weight : Node → Nat
  | .literal _ _ | .ident _ _ => 1
  | .assign _ _ value => value.weight + 1
  | .call _ callee args => callee.weight + Node.weights args + 1
  | .select _ value _ _ => value.weight + 1
  | .function _ _ params body => params.length + body.weight + 2
  | .list _ items => Node.weights items + 1

/-- How many numbers the values of trees may take. -/
def Node.weights : List Node → Nat
  | [] => 0
  | item :: items => item.weight + Node.weights items

end

/-- A number that names a built-in value that is there, or a value below `next`. -/
def Operand (builtins : ValueId → Prop) (next : Nat) (id : ValueId) : Prop :=
  id < 0 ∧ builtins id ∨ 0 ≤ id.toInt ∧ id.toInt < next

theorem Operand.mono {builtins : ValueId → Prop} {next next' : Nat} {id : ValueId}
    (h : Operand builtins next id) (hn : next ≤ next') : Operand builtins next' id := by
  rcases h with h | ⟨h0, h1⟩
  · exact .inl h
  · exact .inr ⟨h0, by omega⟩

theorem Operand.lt {builtins : ValueId → Prop} {next : Nat} {id : ValueId}
    (h : Operand builtins next id) : id.toInt < next := by
  rcases h with ⟨h, -⟩ | ⟨-, h⟩
  · have : id.toInt < 0 := Int32.lt_iff_toInt_lt.mp h
    omega
  · exact h

theorem Operand.builtin {builtins : ValueId → Prop} {next : Nat} {id : ValueId}
    (h : Operand builtins next id) (hid : id < 0) : builtins id := by
  rcases h with ⟨-, h⟩ | ⟨h0, -⟩
  · exact h
  · have : id.toInt < 0 := Int32.lt_iff_toInt_lt.mp hid
    omega

theorem operand_ofNat {builtins : ValueId → Prop} {next n : Nat} (hn : n < next)
    (h : n < 2 ^ 31) : Operand builtins next (.ofNat n) := by
  refine .inr ?_
  rw [Draft.toInt_ofNat h]
  omega

/-- The built-in values and the constants that an instruction names are there, and field names are
texts. -/
def Instruction.Served (builtins : ValueId → Prop) (holds : ConstantId → Constant → Prop) :
    Instruction → Prop
  | .argument id | .call id | .copy id => id < 0 → builtins id
  | .constant c => ∃ k, holds c k ∧ k.value?.isSome = true
  | .field id c _ => (id < 0 → builtins id) ∧ ∃ name, holds c (.ofText name)
  | .enter _ | .leave => True

/-- The constants that a pool holds. -/
def Pool.Holds (p : Pool) (id : ConstantId) (c : Constant) : Prop := (c, id) ∈ p.entries

theorem Instruction.Served.mono {builtins : ValueId → Prop}
    {holds holds' : ConstantId → Constant → Prop} (hh : ∀ {id c}, holds id c → holds' id c)
    {i : Instruction} (h : i.Served builtins holds) : i.Served builtins holds' := by
  cases i with
  | argument | call | copy => exact h
  | constant c =>
    obtain ⟨k, hk, hv⟩ := h
    exact ⟨k, hh hk, hv⟩
  | field id c form =>
    obtain ⟨hid, name, hn⟩ := h
    exact ⟨hid, name, hh hn⟩
  | enter | leave => trivial

theorem Pool.Le.holds {p p' : Pool} (h : p.Le p') {id : ConstantId} {c : Constant}
    (hc : p.Holds id c) : p'.Holds id c := List.IsSuffix.mem hc h

/-- All that is known in the scopes has a number below `n`, which is the next one. -/
structure Emission.Sound (builtins : ValueId → Prop) (s : Emission) (n : Nat) : Prop where
  next : s.scope.next = .ofNat n
  pool : s.pool.Sound
  names : ∀ e ∈ s.scope.names, Operand builtins n e.2
  outer : ∀ scope ∈ s.around, ∀ e ∈ scope.names, Operand builtins n e.2
  literals : ∀ e ∈ s.scope.literals, Operand builtins n e.2

/-- There is room for `k` more numbers and constants. -/
structure Emission.Room (s : Emission) (n k : Nat) : Prop where
  numbers : n + k < 2 ^ 31
  constants : s.pool.size + k < 2 ^ 32

/-- What an emission has gained: segments with the numbers from `n` on, and at most `k` numbers and
constants. -/
structure Emission.Extends (builtins : ValueId → Prop) (s : Emission) (n k : Nat)
    (ps : List Segment) (s' : Emission) : Prop where
  sound : s'.Sound builtins (n + Segment.values ps)
  around : s'.around = s.around
  instructions : s'.instructions.toList = s.instructions.toList ++ Segment.codes ps
  segments : Segment.AllSound n ps
  served : ∀ i ∈ Segment.codes ps, i.Served builtins s'.pool.Holds
  pool : s.pool.Le s'.pool
  values_le : Segment.values ps ≤ k
  size_le : s'.pool.size ≤ s.pool.size + k
  last : s'.scope.last = if Segment.values ps = 0 then s.scope.last
    else some (.ofNat (n + Segment.values ps - 1))

namespace Emission

variable {builtins : ValueId → Prop} {s s₁ s' : Emission} {n k k' : Nat} {ps qs : List Segment}

theorem Extends.refl (h : s.Sound builtins n) : Extends builtins s n 0 [] s := by
  refine ⟨h, rfl, by simp [Segment.codes], by rw [Segment.AllSound]; trivial, by simp [Segment.codes],
    .refl _, Nat.le_refl _, Nat.le_refl _, by simp [Segment.values]⟩

theorem Extends.trans (h : Extends builtins s n k ps s₁)
    (h' : Extends builtins s₁ (n + Segment.values ps) k' qs s') :
    Extends builtins s n (k + k') (ps ++ qs) s' := by
  have hv := Segment.values_append ps qs
  have hl := h.values_le
  have hl' := h'.values_le
  have hs := h.size_le
  have hs' := h'.size_le
  refine ⟨?_, h'.around.trans h.around, ?_, ?_, ?_, h.pool.trans h'.pool, by omega, by omega, ?_⟩
  · rw [hv, ← Nat.add_assoc]
    exact h'.sound
  · rw [h'.instructions, h.instructions, Segment.codes_append, List.append_assoc]
  · exact (Segment.allSound_append ..).mpr ⟨h.segments, h'.segments⟩
  · rw [Segment.codes_append]
    intro i hi
    rcases List.mem_append.mp hi with hi | hi
    · exact (h.served i hi).mono h'.pool.holds
    · exact h'.served i hi
  · rw [h'.last, h.last, hv, Nat.add_assoc]
    by_cases hq : Segment.values qs = 0
    · simp [hq]
    · rw [if_neg hq, if_neg (by omega)]

theorem Extends.mono (h : Extends builtins s n k ps s') (hk : k ≤ k') :
    Extends builtins s n k' ps s' :=
  ⟨h.sound, h.around, h.instructions, h.segments, h.served, h.pool, Nat.le_trans h.values_le hk,
    Nat.le_trans h.size_le (by omega), h.last⟩

/-- One more segment, under the number that comes next. -/
theorem Sound.withValue (h : s.Sound builtins n) (args : List ValueId) (i : Instruction)
    (hi : Segment.Produces args i)
    (hids : ∀ id ∈ args ++ i.operand?.toList, Operand builtins n id)
    (hserved : i.Served builtins s.pool.Holds) :
    Extends builtins s n 1 [.value args i] (Emit.withValue s (args.map .argument ++ [i])) := by
  refine ⟨⟨?_, h.pool, fun e he => (h.names e he).mono (Nat.le_succ n),
    fun scope hs e he => (h.outer scope hs e he).mono (Nat.le_succ n),
    fun e he => (h.literals e he).mono (Nat.le_succ n)⟩, rfl, ?_, ?_, ?_, .refl _, Nat.le_refl _,
    Nat.le_succ _, ?_⟩
  · show s.scope.next + 1 = _
    rw [h.next]
    exact (Int32.ofNat_add n 1).symm
  · simp [Emit.withValue, Emit.withInstructions, Segment.codes, Segment.code]
  · rw [Segment.AllSound, Segment.AllSound, Segment.Sound]
    exact ⟨⟨hi, fun id hid => (hids id hid).lt⟩, trivial⟩
  · intro j hj
    simp only [Segment.codes, Segment.code, List.append_nil, List.mem_append, List.mem_map,
      List.mem_singleton] at hj
    rcases hj with ⟨id, hid, rfl⟩ | rfl
    · exact fun hneg => (hids id (List.mem_append_left _ hid)).builtin hneg
    · exact hserved
  · show some s.scope.next = _
    rw [h.next]
    rfl

/-- A constant that is given a position. -/
theorem Sound.withConstant (h : s.Sound builtins n) (hr : s.Room n 1) (c : Constant) :
    Extends builtins s n 1 [] (Emit.withConstant s c) ∧
      (Emit.withConstant s c).pool.Holds (s.pool.intern c).1 c := by
  have hi := h.pool.intern (by have := hr.constants; omega) c
  refine ⟨⟨⟨h.next, hi.sound, h.names, h.outer, h.literals⟩, rfl,
    by simp [Segment.codes, Emit.withConstant], by rw [Segment.AllSound]; trivial, by simp [Segment.codes], hi.le, Nat.zero_le _, hi.size_le,
    by simp [Segment.values, Emit.withConstant]⟩, hi.mem⟩

/-- Names that are bound to a value with a number. -/
theorem Sound.bound (h : s.Sound builtins n) (names : List String) {value : ValueId}
    (hv : Operand builtins n value) :
    Extends builtins s n 0 [] { s with scope := Emit.bound s.scope names value } := by
  induction names generalizing s with
  | nil => exact .refl h
  | cons name names ih =>
    have hb : Sound builtins { s with scope := s.scope.bind name value } n := by
      refine ⟨h.next, h.pool, fun e he => ?_, h.outer, h.literals⟩
      rcases List.mem_cons.mp he with rfl | he
      · exact hv
      · exact h.names e he
    have hi := ih hb
    exact ⟨hi.sound, hi.around, hi.instructions, hi.segments, hi.served, hi.pool, hi.values_le,
      hi.size_le, hi.last⟩

/-- Room that is left after a part of it has been used. -/
theorem Room.rest (h : s.Room n (k + k')) (he : Extends builtins s n k ps s₁) :
    s₁.Room (n + Segment.values ps) k' := by
  have h1 := h.numbers
  have h2 := h.constants
  have h3 := he.values_le
  have h4 := he.size_le
  exact ⟨by omega, by omega⟩

theorem Room.mono (h : s.Room n k') (hk : k ≤ k') : s.Room n k := by
  have h1 := h.numbers
  have h2 := h.constants
  exact ⟨by omega, by omega⟩

end Emission

/-! ## Expressions -/

theorem mem_of_lookup_eq_some {α β : Type} [BEq α] [LawfulBEq α] {xs : List (α × β)} {a : α} {b : β}
    (h : xs.lookup a = some b) : (a, b) ∈ xs := by
  induction xs with
  | nil => cases h
  | cons x xs ih =>
    obtain ⟨a', b'⟩ := x
    rw [List.lookup_cons] at h
    by_cases he : a = a'
    · subst he
      simp only [beq_self_eq_true, Option.some.injEq] at h
      exact h ▸ List.mem_cons_self
    · simp only [beq_eq_false_iff_ne.mpr he] at h
      exact List.mem_cons_of_mem _ (ih h)

section Expressions

variable {builtin : String → Option ValueId} {builtins : ValueId → Prop}

namespace Emission

variable {s s' : Emission} {n : Nat} {id : ValueId}

theorem Sound.resolve (hb : ∀ {name id}, builtin name = some id → id < 0 ∧ builtins id)
    (h : s.Sound builtins n) {name : String} {span : Span}
    (he : Emit.resolve builtin name span s = .ok (id, s')) :
    s' = s ∧ Operand builtins n id := by
  obtain ⟨hs, hf | ⟨-, hf⟩⟩ := Emit.resolve_eq_ok he
  · obtain ⟨scope, hmem, hl⟩ := List.exists_of_findSome?_eq_some hf
    refine ⟨hs, ?_⟩
    rcases List.mem_cons.mp hmem with hs | hmem
    · exact h.names (name, id) (mem_of_lookup_eq_some (hs ▸ hl))
    · exact h.outer scope hmem (name, id) (mem_of_lookup_eq_some hl)
  · exact ⟨hs, .inl (hb hf)⟩

theorem Sound.literal (h : s.Sound builtins n) (hr : s.Room n 1) {l : Literal}
    (he : Emit.literal l s = .ok (id, s')) :
    ∃ ps, Extends builtins s n 1 ps s' ∧ Operand builtins (n + Segment.values ps) id ∧
      Segment.functions ps = 0 := by
  obtain ⟨hc, hh⟩ := h.withConstant hr l.constant
  rcases Emit.literal_eq_ok he with ⟨hl, rfl⟩ | ⟨-, rfl, rfl⟩
  · have hid := h.literals (_, id) (mem_of_lookup_eq_some hl)
    exact ⟨[], hc, hid, rfl⟩
  · have hs : (Emit.withConstant s l.constant).Sound builtins n := hc.sound
    have hv := hs.withValue [] (.constant (s.pool.intern l.constant).1) rfl
      (by simp [Instruction.operand?]) ⟨_, hh, l.value?_constant⟩
    have hid : Operand builtins (n + 1) s.scope.next := by
      rw [h.next]
      exact operand_ofNat (Nat.lt_succ_self n) (by have := hr.numbers; omega)
    refine ⟨[.value [] (.constant (s.pool.intern l.constant).1)],
      ⟨⟨hv.sound.next, hv.sound.pool, hv.sound.names, hv.sound.outer, fun e he => ?_⟩, hv.around,
        hv.instructions, hv.segments, hv.served, hc.pool, Nat.le_refl _, hc.size_le, hv.last⟩, hid,
      rfl⟩
    rcases List.mem_cons.mp he with rfl | he
    · exact hid
    · exact hv.sound.literals e he

theorem Sound.field (h : s.Sound builtins n) (hr : s.Room n 1) {value : ValueId}
    (hv : Operand builtins n value) (field : String) (form : Form) :
    Extends builtins s n 1 [.value [] (.field value (s.pool.intern (.ofText field)).1 form)]
      (Emit.withValue (Emit.withConstant s (.ofText field))
        [.field value (s.pool.intern (.ofText field)).1 form]) := by
  obtain ⟨hc, hh⟩ := h.withConstant hr (.ofText field)
  have hs : (Emit.withConstant s (.ofText field)).Sound builtins n := hc.sound
  have hx := hs.withValue [] (.field value (s.pool.intern (.ofText field)).1 form) rfl
    (by simpa [Instruction.operand?] using hv) ⟨hv.builtin, field, hh⟩
  exact ⟨hx.sound, hx.around, hx.instructions, hx.segments, hx.served, hc.pool, Nat.le_refl _,
    hc.size_le, hx.last⟩

/-- A copy of a value with a number. -/
theorem Sound.copy (h : s.Sound builtins n) {value : ValueId}
    (hv : Operand builtins n value) :
    Extends builtins s n 1 [.value [] (.copy value)] (Emit.withValue s [.copy value]) :=
  h.withValue [] (.copy value) rfl (by simpa [Instruction.operand?] using hv) hv.builtin

/-- The value of a list of statements has a number, and something has been emitted for it. -/
theorem Sound.conclude (hb : ∀ {name id}, builtin name = some id → id < 0 ∧ builtins id)
    (h : s.Sound builtins n) (hr : s.Room n 1) {span : Span} {last : Option (ValueId × Bool)}
    (hlast : ∀ x ∈ last, Operand builtins n x.1)
    (he : Emit.conclude builtin span last s = .ok (id, s')) :
    ∃ ps, Extends builtins s n 1 ps s' ∧ Operand builtins (n + Segment.values ps) id ∧
      Segment.functions ps = 0 ∧ s'.scope.last = some id := by
  have copy {value : ValueId} (hv : Operand builtins n value)
      (he : Emit.emitValue (.copy value) s = .ok (id, s')) :
      ∃ ps, Extends builtins s n 1 ps s' ∧ Operand builtins (n + Segment.values ps) id ∧
        Segment.functions ps = 0 ∧ s'.scope.last = some id := by
    rw [Emit.emitValue_eq] at he
    cases he
    refine ⟨_, h.copy hv, ?_, rfl, rfl⟩
    rw [h.next]
    exact operand_ofNat (Nat.lt_succ_self n) (by have := hr.numbers; omega)
  unfold Emit.conclude at he
  cases last with
  | none =>
    cases hu : builtin "unit" with
    | none =>
      simp only [hu] at he
      exact absurd he Emit.fail_ne_ok
    | some unit =>
      simp only [hu] at he
      exact copy (.inl (hb hu)) he
  | some x =>
    obtain ⟨value, isName⟩ := x
    have hv : Operand builtins n value := hlast (value, isName) rfl
    obtain ⟨s₁, s₂, hg, he⟩ := Emit.bind_eq_ok he
    cases hg
    by_cases hc : isName = true ∨ s.scope.last ≠ some value
    · rw [if_pos hc] at he
      exact copy hv he
    · rw [if_neg hc] at he
      obtain ⟨rfl, rfl⟩ := Emit.pure_eq_ok he
      exact ⟨[], (Extends.refl h).mono (Nat.zero_le _), hv, rfl, by
        simpa using (not_or.mp hc).2⟩

end Emission

namespace Node

open Emission

mutual

/-- **Compiling an expression**: its value has a number, and what it is made of has been emitted
before. -/
theorem emit_extends (hb : ∀ {name id}, builtin name = some id → id < 0 ∧ builtins id)
    (node : Node) {s s' : Emission} {n : Nat} {id : ValueId} (h : s.Sound builtins n)
    (hr : s.Room n node.weight) (he : emit builtin node s = .ok (id, s')) :
    ∃ ps, Extends builtins s n node.weight ps s' ∧ Operand builtins (n + Segment.values ps) id ∧
      Segment.functions ps = 0 := by
  cases node with
  | literal span l =>
    rw [emit] at he
    exact h.literal hr he
  | ident span name =>
    rw [emit] at he
    obtain ⟨rfl, hid⟩ := h.resolve hb he
    exact ⟨[], (Extends.refl h).mono (Nat.zero_le _), hid, rfl⟩
  | assign span names value =>
    rw [weight] at hr ⊢
    rw [emit] at he
    obtain ⟨v, s₁, h₁, h₂⟩ := Emit.bind_eq_ok he
    obtain ⟨ps, hx, hv, hf⟩ := emit_extends hb value h (hr.mono (Nat.le_succ _)) h₁
    obtain ⟨rfl, rfl⟩ := Emit.assign_eq_ok h₂
    have hx' := hx.trans (hx.sound.bound names hv)
    rw [List.append_nil] at hx'
    exact ⟨ps, hx'.mono (Nat.le_succ _), hv, hf⟩
  | call span callee args =>
    rw [weight] at hr ⊢
    rw [emit] at he
    obtain ⟨c, s₁, h₁, he⟩ := Emit.bind_eq_ok he
    obtain ⟨ids, s₂, h₂, h₃⟩ := Emit.bind_eq_ok he
    obtain ⟨ps, hx, hc, hf⟩ := emit_extends hb callee h (hr.mono (by omega)) h₁
    have hr' : s.Room n (callee.weight + (weights args + 1)) := by rwa [← Nat.add_assoc]
    have hr₁ := hr'.rest hx
    obtain ⟨qs, hx', hids, hf'⟩ := emitArgs_extends hb args hx.sound (hr₁.mono (Nat.le_succ _)) h₂
    have hr₂ := hr₁.rest hx'
    have hc' := hc.mono (Nat.le_add_right _ (Segment.values qs))
    have hv := hx'.sound.withValue ids (.call c) trivial
      (fun id hid => by
        simp only [Instruction.operand?, Option.toList_some, List.mem_append,
          List.mem_singleton] at hid
        rcases hid with hid | rfl
        · exact hids id hid
        · exact hc') hc'.builtin
    rw [Emit.call_eq] at h₃
    cases h₃
    refine ⟨ps ++ qs ++ [.value ids (.call c)], ?_, ?_, ?_⟩
    · have hxx := hx.trans (hx'.trans hv)
      rwa [← List.append_assoc, ← Nat.add_assoc] at hxx
    · rw [hx'.sound.next, Segment.values_append, Segment.values_append]
      have := hr₂.numbers
      exact operand_ofNat (by simp only [Segment.values]; omega) (by omega)
    · rw [Segment.functions_append, Segment.functions_append, hf, hf']
      rfl
  | select span value field form =>
    rw [weight] at hr ⊢
    rw [emit] at he
    obtain ⟨v, s₁, h₁, he⟩ := Emit.bind_eq_ok he
    obtain ⟨_, s₂, h₂, he⟩ := Emit.bind_eq_ok he
    obtain ⟨ps, hx, hv, hf⟩ := emit_extends hb value h (hr.mono (Nat.le_succ _)) h₁
    rw [Emit.requireField_eq_ok h₂] at he
    have hr₁ := hr.rest hx
    have hx' := hx.sound.field hr₁ hv field form
    obtain ⟨_, s₃, h₃, h₄⟩ := Emit.bind_eq_ok he
    cases h₃
    rw [Emit.emitValue_eq] at h₄
    cases h₄
    refine ⟨_, hx.trans hx', ?_, ?_⟩
    · have hn : (Emit.withConstant s₁ (.ofText field)).scope.next = .ofNat (n + Segment.values ps) :=
        hx.sound.next
      rw [Segment.values_append]
      show Operand builtins _ (Emit.withConstant s₁ (.ofText field)).scope.next
      rw [hn]
      have := hr₁.numbers
      exact operand_ofNat (by simp only [Segment.values]; omega) (by omega)
    · rw [Segment.functions_append, hf]
      rfl
  | function span name params body =>
    rw [emit] at he
    exact absurd he Emit.fail_ne_ok
  | list span items =>
    rw [weight] at hr ⊢
    rw [emit] at he
    obtain ⟨last, s₁, h₁, h₂⟩ := Emit.bind_eq_ok he
    obtain ⟨ps, hx, hlast, hf⟩ := emitItems_extends hb items h (hr.mono (Nat.le_succ _)) h₁
    obtain ⟨qs, hx', hid, hf', -⟩ := hx.sound.conclude hb (hr.rest hx) hlast h₂
    refine ⟨ps ++ qs, hx.trans hx', ?_, ?_⟩
    · rw [Segment.values_append, ← Nat.add_assoc]
      exact hid
    · rw [Segment.functions_append, hf, hf']

theorem emitArgs_extends (hb : ∀ {name id}, builtin name = some id → id < 0 ∧ builtins id)
    (args : List Node) {s s' : Emission} {n : Nat} {ids : List ValueId} (h : s.Sound builtins n)
    (hr : s.Room n (weights args)) (he : emitArgs builtin args s = .ok (ids, s')) :
    ∃ ps, Extends builtins s n (weights args) ps s' ∧
      (∀ id ∈ ids, Operand builtins (n + Segment.values ps) id) ∧ Segment.functions ps = 0 := by
  cases args with
  | nil =>
    rw [emitArgs] at he
    obtain ⟨rfl, rfl⟩ := Emit.pure_eq_ok he
    exact ⟨[], .refl h, by simp, rfl⟩
  | cons arg args =>
    rw [weights] at hr ⊢
    rw [emitArgs] at he
    obtain ⟨id, s₁, h₁, he⟩ := Emit.bind_eq_ok he
    obtain ⟨ids', s₂, h₂, he⟩ := Emit.bind_eq_ok he
    obtain ⟨rfl, rfl⟩ := Emit.pure_eq_ok he
    obtain ⟨ps, hx, hid, hf⟩ := emit_extends hb arg h (hr.mono (Nat.le_add_right _ _)) h₁
    obtain ⟨qs, hx', hids, hf'⟩ := emitArgs_extends hb args hx.sound (hr.rest hx) h₂
    refine ⟨ps ++ qs, hx.trans hx', fun x hx => ?_, ?_⟩
    · rw [Segment.values_append, ← Nat.add_assoc]
      rcases List.mem_cons.mp hx with rfl | hx
      · exact hid.mono (Nat.le_add_right _ _)
      · exact hids x hx
    · rw [Segment.functions_append, hf, hf']

theorem emitItems_extends (hb : ∀ {name id}, builtin name = some id → id < 0 ∧ builtins id)
    (items : List Node) {s s' : Emission} {n : Nat} {last : Option (ValueId × Bool)}
    (h : s.Sound builtins n) (hr : s.Room n (weights items))
    (he : emitItems builtin items s = .ok (last, s')) :
    ∃ ps, Extends builtins s n (weights items) ps s' ∧
      (∀ x ∈ last, Operand builtins (n + Segment.values ps) x.1) ∧ Segment.functions ps = 0 := by
  match items with
  | [] =>
    rw [emitItems] at he
    obtain ⟨rfl, rfl⟩ := Emit.pure_eq_ok he
    exact ⟨[], .refl h, by simp, rfl⟩
  | [item] =>
    rw [weights, weights] at hr ⊢
    rw [emitItems] at he
    obtain ⟨id, s₁, h₁, he⟩ := Emit.bind_eq_ok he
    obtain ⟨rfl, rfl⟩ := Emit.pure_eq_ok he
    obtain ⟨ps, hx, hid, hf⟩ := emit_extends hb item h hr h₁
    exact ⟨ps, hx, by simpa using hid, hf⟩
  | item :: item' :: items =>
    rw [weights] at hr ⊢
    rw [emitItems] at he
    · obtain ⟨id, s₁, h₁, he⟩ := Emit.bind_eq_ok he
      obtain ⟨ps, hx, -, hf⟩ := emit_extends hb item h (hr.mono (Nat.le_add_right _ _)) h₁
      obtain ⟨qs, hx', hlast, hf'⟩ := emitItems_extends hb (item' :: items) hx.sound (hr.rest hx) he
      refine ⟨ps ++ qs, hx.trans hx', ?_, ?_⟩
      · rw [Segment.values_append, ← Nat.add_assoc]
        exact hlast
      · rw [Segment.functions_append, hf, hf']
    · simp

end

end Node

end Expressions

end Dataflow
