import Dataflow.Proofs.Compile.Constants

/-!
# The pools of compiled programs are exact

The body of a function is a scope of its own, in which no literal has a value at first, and the scope
around it is as before when the body has been closed. So the pool of a program holds what its tree
mentions, and nothing else.

* `Emission.gathers_of_function`: a function body, from its opening to its end;
* `Instruction.not_balanced_of_note`: within a body a constant is given a value once;
* `Code.ExactPool`: what is said of a unit;
* **`Node.compile_exactPool`**: it holds of every program that compiles, and a constant is missing only
  if there are too many of them.
-/

namespace Dataflow

open Constants

/-! ## Function bodies -/

namespace Emit

variable {s s' : Emission}

theorem parameters_literals {span : Span} (seen names : List String) {scope scope' : Scope}
    (h : enter.parameters span seen names scope s = .ok (scope', s')) :
    s' = s ∧ scope'.literals = scope.literals := by
  induction names generalizing seen scope with
  | nil =>
    obtain ⟨rfl, rfl⟩ := pure_eq_ok h
    exact ⟨rfl, rfl⟩
  | cons name names ih =>
    rw [enter.parameters] at h
    split at h
    · exact absurd h fail_ne_ok
    · exact @ih _ (scope.allocate.2.bind name scope.allocate.1) h

theorem parameters_ne_missing {span : Span} (seen names : List String) {scope : Scope}
    {e : CompileError} (h : enter.parameters span seen names scope s = .error e) (i : Nat) :
    e.cause ≠ .missingConstant i := by
  induction names generalizing seen scope with
  | nil => cases h
  | cons name names ih =>
    rw [enter.parameters] at h
    split at h
    · cases h
      simp
    · exact @ih _ (scope.allocate.2.bind name scope.allocate.1) h

/-- A body that has been opened has no literals. -/
theorem enter_eq_ok {params : List String} {span : Span} {u : Unit}
    (h : enter params span s = .ok (u, s')) :
    s'.around = s.scope :: s.around ∧ s'.pool = s.pool ∧ s'.ids = [] ∧
      s'.instructions = s.instructions.push (.enter (.ofNat params.length)) := by
  obtain ⟨_, s₁, h₁, h⟩ := bind_eq_ok h
  cases h₁
  obtain ⟨_, s₂, h₂, h⟩ := bind_eq_ok h
  cases h₂
  obtain ⟨scope, s₃, h₃, h⟩ := bind_eq_ok h
  cases h
  obtain ⟨-, hl⟩ := parameters_literals [] params h₃
  exact ⟨rfl, rfl, congrArg (List.map Prod.fst) hl, rfl⟩

theorem enter_ne_missing {params : List String} {span : Span} {e : CompileError}
    (h : enter params span s = .error e) (i : Nat) : e.cause ≠ .missingConstant i := by
  rcases bind_eq_error h with h | ⟨_, s₁, -, h⟩
  · cases h
  rcases bind_eq_error h with h | ⟨_, s₂, -, h⟩
  · cases h
  rcases bind_eq_error h with h | ⟨_, s₃, -, h⟩
  · exact parameters_ne_missing [] params h i
  · cases h

/-- Closing a body, the scope around it is innermost again. -/
theorem leave_eq_ok {scope : Scope} {around : List Scope} {u : Unit}
    (ha : s.around = scope :: around) (h : leave s = .ok (u, s')) :
    s' = ⟨scope, around, s.pool, s.instructions.push .leave⟩ := by
  obtain ⟨scope₀, around₀, pool, instructions⟩ := s
  cases ha
  cases h
  rfl

end Emit

namespace Emission

/-- A function body: what it uses does not depend on the scope around it, which does not change. -/
theorem gathers_of_function {s s₁ s₂ s' : Emission} {cs ms ls : List Constant}
    {us : List Constant → List Use} {params : List String} {span : Span} {u v : Unit}
    (h₁ : Emit.enter params span s = .ok (u, s₁)) (h₂ : s₁.Gathers cs ms ls us s₂)
    (h₃ : Emit.leave s₂ = .ok (v, s')) : s.Gathers cs ms [] (fun _ => us []) s' := by
  obtain ⟨ha, -, hids, hi⟩ := Emit.enter_eq_ok h₁
  obtain rfl := Emit.leave_eq_ok (h₂.around.trans ha) h₃
  refine ⟨rfl, h₂.pool, fun hf known hk => ?_⟩
  have hk₁ : s₁.Knows cs [] := ⟨List.nil_subset _, by simp [hids]⟩
  obtain ⟨-, is, hadd⟩ := h₂.adds hf hk₁
  rw [List.append_nil]
  refine ⟨⟨List.subset_append_of_subset_left _ hk.subset, hk.mem_ids_append ms⟩,
    .enter (.ofNat params.length) :: (is ++ [.leave]), ?_, ?_, fun outer => ?_⟩
  · rw [Array.toList_push, hadd.instructions, hi, Array.toList_push, List.append_assoc,
      List.append_assoc]
    rfl
  · simpa [Instruction.constant?] using hadd.uses
  · show (is ++ [Instruction.leave]).foldlM Instruction.note ([] :: s.ids :: outer) = _
    have honce := hadd.once (s.ids :: outer)
    rw [hids] at honce
    rw [List.foldlM_append, honce]
    rfl

end Emission

namespace Emit.Gathers

variable {α : Type} {ms ls : List Constant} {us : List Constant → List Use}

theorem function {x : Emit α} (hx : Gathers x ms ls us) (params : List String) (span : Span) :
    Gathers (do
      enter params span
      let _ ← x
      leave) ms [] fun _ => us [] := by
  refine ⟨fun hs h => ?_, fun h => ?_⟩
  · obtain ⟨_, s₁, h₁, h⟩ := bind_eq_ok h
    obtain ⟨_, s₂, h₂, h₃⟩ := bind_eq_ok h
    obtain ⟨-, hp, -⟩ := enter_eq_ok h₁
    exact Emission.gathers_of_function h₁ (hx.ok (hp.trans hs) h₂) h₃
  · rcases bind_eq_error h with h | ⟨_, s₁, -, h⟩
    · exact enter_ne_missing h
    rcases bind_eq_error h with h | ⟨_, s₂, -, h⟩
    · exact hx.error h
    · cases h

end Emit.Gathers

/-! ## Statements -/

namespace Node

open Emit (Gathers)

variable {builtin : String → Option ValueId}

theorem constantsAll_bodyItems (body : Node) : constantsAll body.bodyItems = body.constants := by
  cases body with
  | list span items => rw [bodyItems, constants]
  | _ => exact List.append_nil _

theorem usesAll_bodyItems (body : Node) : usesAll [] body.bodyItems = body.uses [] := by
  cases body with
  | list span items => rw [bodyItems, uses]
  | _ => exact List.append_nil _

theorem Gathers.program {items : List Node} (h : ∀ hoisted,
      Gathers (emitStatements builtin hoisted items) (constantsAll items) (literalsAll items)
        (usesAll · items)) (span : Span) :
    Gathers (program builtin span items) (constantsAll items) (literalsAll items)
      (usesAll · items) :=
  (Gathers.hoist items).plain_bind fun hoisted =>
    (h hoisted).bind_plain fun last => .conclude builtin span last

/-- What compiling statements gathers. -/
theorem emitStatements_gathers :
    (∀ (item : Node) (hoisted : List ValueId),
      Gathers (emitStatement builtin hoisted item) item.constants item.literals (item.uses ·)) ∧
    ∀ (items : List Node) (hoisted : List ValueId),
      Gathers (emitStatements builtin hoisted items) (constantsAll items) (literalsAll items)
        (usesAll · items) := by
  refine statement_induct ?function ?expression ?nil ?single ?cons
  case function =>
    intro span name params body ih hoisted
    have hx := ((Gathers.program ih body.span).function params span).bind_plain
      fun _ => Gathers.takeNumber span hoisted
    rw [constantsAll_bodyItems, usesAll_bodyItems] at hx
    rw [emitStatement_function, constants, literals]
    simpa only [Node.program, bind_assoc, uses] using hx
  case expression =>
    intro item hitem hoisted
    rw [emitStatement_of_not_isFunction hitem]
    exact (emit_gathers item).bind_plain fun _ => .pure _
  case nil => exact fun _ => .pure _
  case single => exact fun item ih hoisted => (ih hoisted).bind fun _ => .pure _
  case cons =>
    intro item item' items ih ihs hoisted
    rw [emitStatements.eq_3 builtin _ _ _ (by simp)]
    exact (ih hoisted).bind fun x => ihs x.2

/-- What compiling the statements of a scope gathers. -/
theorem program_gathers (span : Span) (items : List Node) :
    Gathers (program builtin span items) (constantsAll items) (literalsAll items)
      (usesAll · items) :=
  Gathers.program (emitStatements_gathers.2 items) span

end Node

/-! ## Exact pools -/

namespace Instruction

open Instructions

/-- What has a value in the innermost scope keeps it until this scope is innermost again. -/
theorem foldlM_note_of_balanced {is : List Instruction} {inner outer known : List (List ConstantId)}
    {own : List ConstantId} (hb : Balanced inner.length is)
    (h : is.foldlM note (inner ++ own :: outer) = some known) :
    ∃ own', known = own' :: outer ∧ own ⊆ own' := by
  induction is generalizing inner own with
  | nil =>
    obtain rfl := List.length_eq_zero_iff.mp hb
    cases h
    exact ⟨own, rfl, List.Subset.refl _⟩
  | cons i is ih =>
    rw [List.foldlM_cons] at h
    cases i with
    | enter params => exact @ih ([] :: inner) _ hb h
    | leave =>
      obtain ⟨hpos, hb⟩ := hb
      obtain ⟨_, inner, rfl⟩ := List.exists_cons_of_length_pos hpos
      exact ih hb h
    | constant id =>
      cases inner with
      | nil =>
        by_cases hid : id ∈ own
        · simp [note, hid] at h
        · rw [List.nil_append, note, if_neg hid] at h
          obtain ⟨own', hk, hsub⟩ := @ih [] _ hb h
          exact ⟨own', hk, List.Subset.trans (List.subset_cons_self id own) hsub⟩
      | cons first inner =>
        by_cases hid : id ∈ first
        · simp [note, hid] at h
        · rw [List.cons_append, note, if_neg hid] at h
          exact @ih ((id :: first) :: inner) _ hb h
    | argument | call | field | copy =>
      cases inner with
      | nil => exact @ih [] _ hb h
      | cons first inner => exact @ih (first :: inner) _ hb h

/-- Between two instructions that give a value to one constant a body is closed or left open. -/
theorem not_balanced_of_note {before between after : List Instruction} {id : ConstantId}
    {known known' : List (List ConstantId)}
    (h : (before ++ .constant id :: (between ++ .constant id :: after)).foldlM note known =
      some known') : ¬Balanced 0 between := by
  intro hb
  rw [List.foldlM_append, Option.bind_eq_bind, Option.bind_eq_some_iff] at h
  obtain ⟨start, -, h⟩ := h
  rw [List.foldlM_cons, Option.bind_eq_bind, Option.bind_eq_some_iff] at h
  obtain ⟨first, hfirst, h⟩ := h
  rw [List.foldlM_append, Option.bind_eq_bind, Option.bind_eq_some_iff] at h
  obtain ⟨second, hsecond, h⟩ := h
  rw [List.foldlM_cons, Option.bind_eq_bind, Option.bind_eq_some_iff] at h
  obtain ⟨third, hthird, -⟩ := h
  cases start with
  | nil => cases hfirst
  | cons own outer =>
    rw [note] at hfirst
    split at hfirst
    · cases hfirst
    · cases hfirst
      obtain ⟨own', rfl, hsub⟩ := @foldlM_note_of_balanced _ [] _ _ _ hb hsecond
      rw [note, if_pos (hsub List.mem_cons_self)] at hthird
      cases hthird

/-- The positions that instructions name are those of what they are used for. -/
theorem filterMap_constant? {cs : List Constant} {is : List Instruction} {us : List Use}
    (h : List.Forall₂ (Uses cs) (is.filter (·.constant?.isSome)) us) :
    is.filterMap constant? = (us.map Use.constant).map (position cs) := by
  have hfilter : (is.filter (·.constant?.isSome)).filterMap constant? = is.filterMap constant? := by
    rw [List.filterMap_filter]
    refine List.filterMap_congr fun i _ => ?_
    cases i.constant? <;> rfl
  rw [← hfilter]
  generalize is.filter (·.constant?.isSome) = js at h
  induction h with
  | nil => rfl
  | cons hu _ ih => rw [List.filterMap_cons, hu.constant?_eq, ih, List.map_cons, List.map_cons]

end Instruction

/-- The constants of a unit are exactly what its tree uses. -/
structure Code.ExactPool (root : Node) (code : Code) : Prop where
  /-- What the tree mentions, each constant once. -/
  constants : code.constants = root.constants.eraseDups
  nodup : code.constants.Nodup
  /-- All positions are named by instructions, and they are named in order. -/
  inOrder : (code.instructions.filterMap Instruction.constant?).eraseDups.map UInt32.toNat =
    List.range code.constants.length
  /-- The instructions that name constants are there for literals and fields of the tree, whose
  constants they name. -/
  serves : List.Forall₂ (Instruction.Serves code.constants)
    (code.instructions.filter (·.constant?.isSome)) (root.uses [])
  /-- Two instructions that give a value to one constant do not belong to one scope. -/
  once : ∀ before between after id,
    code.instructions = before ++ .constant id :: (between ++ .constant id :: after) →
      ¬Instructions.Balanced 0 between

namespace Node

variable {builtin : String → Option ValueId}

/-- The pool of a program is that of its constants. -/
theorem program_pool {span : Span} {items : List Node} {id : ValueId} {s : Emission}
    (hp : program builtin span items ⟨.startingAt 0, [], .empty, #[]⟩ = .ok (id, s)) :
    Emission.Gathers ⟨.startingAt 0, [], .empty, #[]⟩ [] (constantsAll items) (literalsAll items)
      (usesAll · items) s :=
  (program_gathers span items).ok Pool.ofConstants_nil.symm hp

theorem exactPool_of_gathers {span : Span} {items : List Node} {s : Emission}
    (hf : Fit (constantsAll items))
    (hg : Emission.Gathers ⟨.startingAt 0, [], .empty, #[]⟩ [] (constantsAll items)
      (literalsAll items) (usesAll · items) s) :
    Code.ExactPool (.list span items)
      ⟨.zero, (constantsAll items).eraseDups, s.instructions.toList⟩ := by
  have hk : Emission.Knows ⟨.startingAt 0, [], .empty, #[]⟩ [] [] :=
    ⟨List.Subset.refl _, by simp [Emission.ids, Scope.startingAt]⟩
  obtain ⟨-, is, hadd⟩ := hg.adds hf hk
  rw [List.nil_append] at hadd
  have hi : s.instructions.toList = is := by simpa using hadd.instructions
  rw [hi]
  have huses : ((usesAll [] items).map Use.constant).eraseDups = (constantsAll items).eraseDups :=
    eraseDups_usesAll items (List.Subset.refl [])
  have hmem (c : Constant) : c ∈ (usesAll [] items).map Use.constant → c ∈ constantsAll items := by
    rw [← List.mem_eraseDups, huses, List.mem_eraseDups]
    exact id
  refine ⟨rfl, nodup_eraseDups _, ?_, hadd.uses.imp fun _ _ hu => hu.serves hf,
    fun before between after id he => ?_⟩
  · show (is.filterMap Instruction.constant?).eraseDups.map UInt32.toNat = _
    rw [Instruction.filterMap_constant? hadd.uses,
      eraseDups_map fun c hc d hd => position_inj hf (hmem c hc) (hmem d hd), huses, List.map_map]
    exact map_position hf
  · have honce := hadd.once []
    rw [show is = _ from he] at honce
    exact Instruction.not_balanced_of_note honce

/-- A program that compiles has no more constants than there are positions. -/
theorem fit_of_compile {root : Node} {code : Code} (he : root.compile builtin = .ok code) :
    Fit root.constants := by
  obtain ⟨span, items, id, s, constants, rfl, hp, hl, rfl⟩ := compile_eq_ok he
  by_contra hn
  rw [(program_pool hp).pool] at hl
  refine Pool.layout_ne_ok ?_ constants hl
  rw [Pool.size_ofConstants]
  exact Nat.lt_of_not_le hn

/-- A constant is missing only if there are more of them than positions. -/
theorem not_fit_of_missing {root : Node} {e : CompileError} {i : Nat}
    (he : root.compile builtin = .error e) (hc : e.cause = .missingConstant i) :
    ¬Fit root.constants := by
  intro hf
  cases root with
  | list span items =>
    cases hp : program builtin span items ⟨.startingAt 0, [], .empty, #[]⟩ with
    | error e' =>
      have h : compile builtin (.list span items) = .error e' := by
        unfold compile
        exact congrArg (· >>= _) hp
      cases h.symm.trans he
      exact (program_gathers span items).error hp i hc
    | ok r =>
      obtain ⟨id, s⟩ := r
      have hl : s.pool.layout = .ok (constantsAll items).eraseDups := by
        rw [(program_pool hp).pool]
        exact Pool.layout_ofConstants hf
      cases (compile_list hp hl).symm.trans he
  | _ =>
    cases he
    cases hc

/-- **The constants of a unit are exactly those that its tree uses**, each of them once and in the order
in which they are used first; every instruction that is there for a literal or a field names the
right one, and a scope has one value for each. A constant is missing only if there are more of them
than positions, and then nothing compiles. -/
theorem compile_exactPool (builtin : String → Option ValueId) (root : Node) :
    (∀ code, root.compile builtin = .ok code → code.ExactPool root) ∧
      ∀ i span, root.compile builtin = .error ⟨.missingConstant i, span⟩ →
        2 ^ 32 < root.constants.eraseDups.length := by
  refine ⟨fun code he => ?_, fun i span he => Nat.lt_of_not_le (not_fit_of_missing he rfl)⟩
  have hf := fit_of_compile he
  obtain ⟨span, items, id, s, constants, rfl, hp, hl, rfl⟩ := compile_eq_ok he
  have hg := program_pool hp
  rw [hg.pool] at hl
  cases (Pool.layout_ofConstants hf).symm.trans hl
  exact exactPool_of_gathers hf hg

/-- The statements `"name"`, `fn f(): "name"` and `1.name`. -/
def shared : Node :=
  .list default [.literal default (.str "name"),
    .function default "f" [] (.literal default (.str "name")),
    .select default (.literal default (.int 1)) "name" .member]

/-- A literal and a field of one name share a constant, which has a value in each of two scopes. -/
theorem compile_exactPool_shared :
    Code.ExactPool shared ⟨.zero, [.ofText "name", .ofInt 1],
      [.constant 0, .enter 0, .constant 0, .leave, .constant 1, .field 2 0 .member]⟩ :=
  (compile_exactPool Environment.empty.idOf? shared).1 _ (by decide +kernel)

end Node

end Dataflow
