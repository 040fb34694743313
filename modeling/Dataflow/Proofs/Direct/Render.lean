import Dataflow.Proofs.Compile.Agreement
import Dataflow.Proofs.Compile.Scoping

/-!
# What trees are compiled to

The values of a compiled tree can be read off the tree, given what names and literals stand for where
it begins. This relation knows nothing of how compiling goes about it.

* `Tables`: what is known at a point of a scope;
* `Node.Renders`, `Node.RendersAll`: the values of expressions;
* `Node.RendersBody`, `Node.RendersFunction`: those of statements and functions;
* `Recorder.Traces`: what compiling writes down has a property;
* **`Node.renders_of_compile`**: the record of a compiled program is related to its tree.
-/

namespace Dataflow

/-- What is known at a point of a scope: the numbers of names, also of those from the scopes around,
the latest first; the numbers of literals; and the number that this scope gave out last. -/
structure Tables where
  names : List (String × ValueId)
  literals : List (ConstantId × ValueId)
  last : Option ValueId

namespace Tables

/-- Binds names to one number. -/
def bind (T : Tables) (names : List String) (id : ValueId) : Tables :=
  { T with names := names.foldl (fun known name => (name, id) :: known) T.names }

/-- Gives out a number. -/
def give (T : Tables) (id : ValueId) : Tables := { T with last := some id }

/-- What is known at the start of a function body with parameters and functions. -/
def enter (T : Tables) (params functions : List (String × ValueId)) : Tables :=
  ⟨functions.reverse ++ params.reverse ++ T.names, [], (functions.map Prod.snd).getLast?⟩

end Tables

variable {builtin : String → Option ValueId} {holds : ConstantId → Constant → Prop}

/-- The value of items, of which the last one has the given number: a copy of it, or the last one
itself if its number was given out last. -/
inductive Concludes (builtin : String → Option ValueId) :
    Tables → Option ValueId → List Given → ValueId → Tables → Prop where
  | unit {T : Tables} {u : ValueId} (hu : builtin "unit" = some u) (id : ValueId) :
    Concludes builtin T none [.value id [.copy u]] id (T.give id)
  | copy {T : Tables} (v id : ValueId) :
    Concludes builtin T (some v) [.value id [.copy v]] id (T.give id)
  | same {T : Tables} {v : ValueId} (h : T.last = some v) : Concludes builtin T (some v) [] v T

mutual

/-- An expression is compiled to values, the last of which may have been there before. -/
inductive Node.Renders (builtin : String → Option ValueId) (holds : ConstantId → Constant → Prop) :
    Node → Tables → List Given → ValueId → Tables → Prop where
  | known {span : Span} {l : Literal} {T : Tables} {c : ConstantId} {id : ValueId}
    (hc : holds c l.constant) (h : T.literals.lookup c = some id) :
    Node.Renders builtin holds (.literal span l) T [] id T
  | literal {span : Span} {l : Literal} {T : Tables} {c : ConstantId} (hc : holds c l.constant)
    (id : ValueId) : Node.Renders builtin holds (.literal span l) T [.value id [.constant c]] id
      ⟨T.names, (c, id) :: T.literals, some id⟩
  | bound {span : Span} {name : String} {T : Tables} {id : ValueId}
    (h : T.names.lookup name = some id) : Node.Renders builtin holds (.ident span name) T [] id T
  | builtin {span : Span} {name : String} {T : Tables} {id : ValueId}
    (h : T.names.lookup name = none) (hb : builtin name = some id) :
    Node.Renders builtin holds (.ident span name) T [] id T
  | assign {span : Span} {names : List String} {value : Node} {T T' : Tables} {gs : List Given}
    {id : ValueId} (h : Node.Renders builtin holds value T gs id T') :
    Node.Renders builtin holds (.assign span names value) T gs id (T'.bind names id)
  | call {span : Span} {callee : Node} {args : List Node} {T T₁ T₂ : Tables} {gs hs : List Given}
    {c : ValueId} {ids : List ValueId} (hc : Node.Renders builtin holds callee T gs c T₁)
    (ha : Node.RendersAll builtin holds args T₁ hs ids T₂) (id : ValueId) :
    Node.Renders builtin holds (.call span callee args) T
      (gs ++ hs ++ [.value id (ids.map .argument ++ [.call c])]) id (T₂.give id)
  | select {span : Span} {value : Node} {field : String} {form : Form} {T T' : Tables}
    {gs : List Given} {v : ValueId} {c : ConstantId} (h : Node.Renders builtin holds value T gs v T')
    (hc : holds c (.ofText field)) (id : ValueId) :
    Node.Renders builtin holds (.select span value field form) T
      (gs ++ [.value id [.field v c form]]) id (T'.give id)
  | list {span : Span} {items : List Node} {T T₁ T₂ : Tables} {gs hs : List Given}
    {ids : List ValueId} {id : ValueId} (h : Node.RendersAll builtin holds items T gs ids T₁)
    (hc : Concludes builtin T₁ ids.getLast? hs id T₂) :
    Node.Renders builtin holds (.list span items) T (gs ++ hs) id T₂

/-- Expressions one after the other. -/
inductive Node.RendersAll (builtin : String → Option ValueId)
    (holds : ConstantId → Constant → Prop) :
    List Node → Tables → List Given → List ValueId → Tables → Prop where
  | nil {T : Tables} : Node.RendersAll builtin holds [] T [] [] T
  | cons {item : Node} {items : List Node} {T T₁ T₂ : Tables} {gs hs : List Given} {id : ValueId}
    {ids : List ValueId} (h : Node.Renders builtin holds item T gs id T₁)
    (hs' : Node.RendersAll builtin holds items T₁ hs ids T₂) :
    Node.RendersAll builtin holds (item :: items) T (gs ++ hs) (id :: ids) T₂

end

mutual

/-- Statements are compiled to values and functions. The numbers that were set aside for functions are
given in order, and so is the number of the last statement's value. -/
inductive Node.RendersBody (builtin : String → Option ValueId)
    (holds : ConstantId → Constant → Prop) :
    List ValueId → List Node → Tables → List Given → Option ValueId → Tables → Prop where
  | nil {hoisted : List ValueId} {T : Tables} : Node.RendersBody builtin holds hoisted [] T [] none T
  | function {span : Span} {name : String} {params : List String} {body : Node} {items : List Node}
    {id : ValueId} {hoisted : List ValueId} {T T' : Tables} {n : Numbering} {gs : List Given}
    {last : Option ValueId} (hf : Node.RendersFunction builtin holds params body T n)
    (h : Node.RendersBody builtin holds hoisted items T gs last T') :
    Node.RendersBody builtin holds (id :: hoisted) (.function span name params body :: items) T
      (.function id n :: gs) (some (last.getD id)) T'
  | value {item : Node} {items : List Node} {hoisted : List ValueId} {T T₁ T₂ : Tables}
    {gs hs : List Given} {id : ValueId} {last : Option ValueId} (hi : item.isFunction = false)
    (h : Node.Renders builtin holds item T gs id T₁)
    (hs' : Node.RendersBody builtin holds hoisted items T₁ hs last T₂) :
    Node.RendersBody builtin holds hoisted (item :: items) T (gs ++ hs) (some (last.getD id)) T₂

/-- A function is compiled to the numbers of its own scope. -/
inductive Node.RendersFunction (builtin : String → Option ValueId)
    (holds : ConstantId → Constant → Prop) :
    List String → Node → Tables → Numbering → Prop where
  | intro {params : List String} {body : Node} {T T₁ T₂ : Tables} {first : ValueId}
    {ids hoisted : List ValueId} {gs hs : List Given} {last : Option ValueId} {id : ValueId}
    (hids : ids.length = params.length)
    (hh : hoisted.length = (functionNames body.bodyItems).length)
    (h : Node.RendersBody builtin holds hoisted body.bodyItems
      (T.enter (params.zip ids) ((functionNames body.bodyItems).zip hoisted)) gs last T₁)
    (hc : Concludes builtin T₁ last hs id T₂) :
    Node.RendersFunction builtin holds params body T ⟨first, ids, hoisted, gs ++ hs, id⟩

end

/-! ## Tables of an emission -/

/-- What an emission knows. -/
def Emission.tables (s : Emission) : Tables :=
  ⟨s.scope.names ++ s.around.flatMap Scope.names, s.scope.literals, s.scope.last⟩

theorem findSome?_lookup (scopes : List Scope) (name : String) :
    scopes.findSome? (fun scope => scope.names.lookup name) =
      (scopes.flatMap Scope.names).lookup name := by
  induction scopes with
  | nil => rfl
  | cons scope scopes ih =>
    rw [List.findSome?_cons, List.flatMap_cons, List.lookup_append, ← ih]
    cases scope.names.lookup name <;> rfl

theorem Pool.le_intern (p : Pool) (c : Constant) : p.Le (p.intern c).2 := by
  unfold intern
  cases p.find? c with
  | some id => exact .refl p
  | none => exact List.suffix_cons _ _

theorem Pool.holds_intern (p : Pool) (c : Constant) : (p.intern c).2.Holds (p.intern c).1 c := by
  unfold intern
  cases h : p.find? c with
  | some id => exact mem_of_find? h
  | none => exact List.mem_cons_self

/-- An emission goes on in the same scope, and a fact about constants that its pool bears out. -/
structure Emission.Passes (holds : ConstantId → Constant → Prop) (s s' : Emission) (p : Prop) :
    Prop where
  pool : s.pool.Le s'.pool
  around : s'.around = s.around
  holds : (∀ {c k}, s'.pool.Holds c k → holds c k) → p

namespace Emission.Passes

variable {s s₁ s' : Emission} {p q r : Prop}

theorem trans (h : s.Passes holds s₁ p) (h' : s₁.Passes holds s' q) (hr : p → q → r) :
    s.Passes holds s' r :=
  ⟨h.pool.trans h'.pool, h'.around.trans h.around,
    fun hs => hr (h.holds fun hk => hs (h'.pool.holds hk)) (h'.holds hs)⟩

theorem mono (h : s.Passes holds s' p) (hq : p → q) : s.Passes holds s' q :=
  ⟨h.pool, h.around, fun hs => hq (h.holds hs)⟩

end Emission.Passes

/-! ## Watching -/

namespace Recorder

open Given (run)

variable {α β : Type} {P Q : Emission → α → List Given → Emission → Prop}
  {R : Emission → β → List Given → Emission → Prop}

/-- What is watched comes to the same, and what is written down has a property. -/
def Traces (y : Recorder α) (x : Emit α) (P : Emission → α → List Given → Emission → Prop) : Prop :=
  ∀ ⦃s a s'⦄, x s = .ok (a, s') →
    ∃ gs, (∀ before, y before s = .ok ((a, before ++ gs), s')) ∧ P s a gs s'

namespace Traces

variable {y : Recorder α} {x : Emit α} {k : α → Recorder β} {f : α → Emit β}

theorem pure (a : α) (h : ∀ s, P s a [] s) : Traces (pure a) (pure a) P := by
  intro s b s' hx
  obtain ⟨rfl, rfl⟩ := Emit.pure_eq_ok hx
  exact ⟨[], fun before => by rw [List.append_nil]; rfl, h _⟩

theorem bind (hx : Traces y x P) (hf : ∀ a, Traces (k a) (f a) fun s₁ b hs s' =>
      ∀ s gs, P s a gs s₁ → R s b (gs ++ hs) s') : Traces (y >>= k) (x >>= f) R := by
  intro s b s' h
  obtain ⟨a, s₁, h₁, h₂⟩ := Emit.bind_eq_ok h
  obtain ⟨gs, hy, hp⟩ := hx h₁
  obtain ⟨hs, hk, hr⟩ := hf a h₂
  refine ⟨gs ++ hs, fun before => ?_, hr s gs hp⟩
  rw [bind_ok (hy before), hk, List.append_assoc]

theorem mono (hx : Traces y x P) (h : ∀ s a gs s', P s a gs s' → Q s a gs s') : Traces y x Q := by
  intro s a s' hr
  obtain ⟨gs, hy, hp⟩ := hx hr
  exact ⟨gs, hy, h s a gs s' hp⟩

/-- An operation that gives out one number at most. -/
theorem watch {x : Emit α} (h : ∀ ⦃s a s'⦄, x s = .ok (a, s') →
    s'.scope.next = s.scope.next ∧ P s a [] s' ∨
      ∃ is, s.Makes is s' ∧ P s a [.value s.scope.next is] s') : Traces (Recorder.watch x) x P := by
  intro s a s' hx
  have hw (before : List Given) : Recorder.watch x before s = .ok ((a, before ++ newly s s'), s') := by
    unfold Recorder.watch
    rw [hx]
    rfl
  obtain ⟨hnext, hp⟩ | ⟨is, hmake, hp⟩ := h hx
  · refine ⟨[], fun before => ?_, hp⟩
    rw [hw, newly, if_pos hnext]
  · refine ⟨_, fun before => ?_, hp⟩
    rw [hw, newly, hmake.next, if_neg (add_one_ne _), hmake.instructions,
      List.drop_left' Array.length_toList]

end Traces

/-! ## Expressions -/

theorem literal_traces (span : Span) (l : Literal) :
    Traces (watch (Emit.literal l)) (Emit.literal l) fun s id gs s' =>
      s.Passes holds s' (Node.Renders builtin holds (.literal span l) s.tables gs id s'.tables) := by
  refine .watch fun s id s' h => ?_
  rcases Emit.literal_eq_ok h with ⟨hl, rfl⟩ | ⟨-, rfl, rfl⟩
  · exact .inl ⟨rfl, s.pool.le_intern _, rfl, fun hs => .known (hs (s.pool.holds_intern _)) hl⟩
  · refine .inr ⟨[.constant (s.pool.intern l.constant).1], ⟨rfl, rfl, rfl, ?_, [], _, rfl, rfl⟩,
      s.pool.le_intern _, rfl, fun hs => .literal (hs (s.pool.holds_intern _)) _⟩
    simp [Emit.withLiteral, Emit.withValue, Emit.withInstructions, Emit.withConstant]

theorem resolve_traces (span : Span) (name : String) :
    Traces (watch (Emit.resolve builtin name span)) (Emit.resolve builtin name span)
      fun s id gs s' =>
        s.Passes holds s' (Node.Renders builtin holds (.ident span name) s.tables gs id s'.tables) := by
  refine .watch fun s id s' h => ?_
  obtain ⟨rfl, hr⟩ := Emit.resolve_eq_ok h
  refine .inl ⟨rfl, .refl _, rfl, fun _ => ?_⟩
  rw [findSome?_lookup] at hr
  rcases hr with hr | ⟨hn, hb⟩
  · exact .bound hr
  · exact .builtin hn hb

theorem bound_names (names : List String) (value : ValueId) (scope : Scope) :
    (Emit.bound scope names value).names =
        names.foldl (fun known name => (name, value) :: known) scope.names ∧
      (Emit.bound scope names value).literals = scope.literals := by
  unfold Emit.bound
  induction names generalizing scope with
  | nil => exact ⟨rfl, rfl⟩
  | cons name names ih => exact ih (scope.bind name value)

theorem foldl_bind_append (names : List String) (id : ValueId)
    (known outer : List (String × ValueId)) :
    names.foldl (fun known name => (name, id) :: known) known ++ outer =
      names.foldl (fun known name => (name, id) :: known) (known ++ outer) := by
  induction names generalizing known with
  | nil => rfl
  | cons name names ih => exact ih ((name, id) :: known)

theorem tables_bound (s : Emission) (names : List String) (value : ValueId) :
    Emission.tables { s with scope := Emit.bound s.scope names value } =
      s.tables.bind names value := by
  obtain ⟨hn, hl⟩ := bound_names names value s.scope
  have hlast := (bound_eq names value s.scope).2
  simp only [Emission.tables, Tables.bind, hn, hl, hlast, foldl_bind_append]

theorem assign_traces (holds : ConstantId → Constant → Prop) (names : List String) (value : ValueId) (span : Span) :
    Traces (watch (Emit.assign names value span)) (Emit.assign names value span)
      fun s id gs s' => s.Passes holds s'
        (id = value ∧ gs = [] ∧ s'.tables = s.tables.bind names value) := by
  refine .watch fun s id s' h => .inl ?_
  obtain ⟨rfl, rfl⟩ := Emit.assign_eq_ok h
  exact ⟨(bound_eq names id s.scope).1, .refl _, rfl, fun _ => ⟨rfl, rfl, tables_bound s names id⟩⟩

theorem call_traces (holds : ConstantId → Constant → Prop) (callee : ValueId) (args : List ValueId) :
    Traces (watch (Emit.call callee args)) (Emit.call callee args) fun s id gs s' =>
      s.Passes holds s' (gs = [.value id (args.map .argument ++ [.call callee])] ∧
        s'.tables = s.tables.give id) := by
  refine .watch fun s id s' h => .inr ?_
  rw [Emit.call_eq] at h
  cases h
  exact ⟨_, s.makes_withValue trivial, .refl _, rfl, fun _ => ⟨rfl, rfl⟩⟩

theorem select_traces (holds : ConstantId → Constant → Prop) (span : Span) (value : ValueId) (field : String) (form : Form) :
    Traces (watch (do
      Emit.requireField field form span
      let name ← Emit.intern (.ofText field)
      Emit.emitValue (.field value name form)))
      (do
        Emit.requireField field form span
        let name ← Emit.intern (.ofText field)
        Emit.emitValue (.field value name form)) fun s id gs s' =>
      s.Passes holds s' (∃ c, holds c (.ofText field) ∧ gs = [.value id [.field value c form]] ∧
        s'.tables = s.tables.give id) := by
  refine .watch fun s id s' h => .inr ?_
  obtain ⟨_, s₁, h₁, h'⟩ := Emit.bind_eq_ok h
  obtain ⟨name, s₂, h₂, h₃⟩ := Emit.bind_eq_ok h'
  rw [Emit.requireField_eq_ok h₁] at h₂
  cases h₂
  cases h₃
  have hm := (Emit.withConstant s (.ofText field)).makes_withValue
    (show Segment.Produces [] (.field value (s.pool.intern (.ofText field)).1 form) from rfl)
  exact ⟨_, ⟨hm.around, hm.next, hm.last, hm.instructions, hm.produces⟩, s.pool.le_intern _, rfl,
    fun hs => ⟨_, hs (s.pool.holds_intern _), rfl, rfl⟩⟩

theorem conclude_traces (holds : ConstantId → Constant → Prop) (span : Span) (last : Option (ValueId × Bool)) :
    Traces (watch (Emit.conclude builtin span last)) (Emit.conclude builtin span last)
      fun s id gs s' => s.Passes holds s'
        (Concludes builtin s.tables (last.map Prod.fst) gs id s'.tables) := by
  refine .watch fun s id s' h => ?_
  unfold Emit.conclude at h
  cases last with
  | none =>
    cases hu : builtin "unit" with
    | none =>
      simp only [hu] at h
      exact absurd h Emit.fail_ne_ok
    | some u =>
      simp only [hu] at h
      cases h
      exact .inr ⟨_, s.makes_withValue (show Segment.Produces [] (.copy u) from rfl), .refl _, rfl,
        fun _ => .unit hu _⟩
  | some x =>
    obtain ⟨value, isName⟩ := x
    obtain ⟨s₁, s₂, hg, h⟩ := Emit.bind_eq_ok h
    cases hg
    by_cases hc : isName = true ∨ s.scope.last ≠ some value
    · rw [if_pos hc] at h
      cases h
      exact .inr ⟨_, s.makes_withValue (show Segment.Produces [] (.copy value) from rfl), .refl _, rfl,
        fun _ => .copy _ _⟩
    · rw [if_neg hc] at h
      obtain ⟨rfl, rfl⟩ := Emit.pure_eq_ok h
      exact .inl ⟨rfl, .refl _, rfl, fun _ => .same (not_not.mp (not_or.mp hc).2)⟩

mutual

theorem emit_traces (node : Node) :
    Traces (emit builtin node) (Node.emit builtin node) fun s id gs s' =>
      s.Passes holds s' (node.Renders builtin holds s.tables gs id s'.tables) := by
  cases node with
  | literal span l =>
    rw [emit, Node.emit]
    exact literal_traces span l
  | ident span name =>
    rw [emit, Node.emit]
    exact resolve_traces span name
  | assign span names value =>
    rw [emit, Node.emit]
    refine (emit_traces value).bind fun v => (assign_traces holds names v span).mono ?_
    intro s₁ id hs s' h s gs hv
    refine hv.trans h fun hv ⟨hid, hhs, hT⟩ => ?_
    rw [hid, hhs, hT, List.append_nil]
    exact .assign hv
  | call span callee args =>
    rw [emit, Node.emit]
    refine (emit_traces callee).bind fun c => (emitArgs_traces args).bind fun ids =>
      (call_traces holds c ids).mono ?_
    intro s₂ id ks s' h s₁ hs ha s gs hc
    rw [← List.append_assoc]
    refine (hc.trans ha And.intro).trans h fun ⟨hc, ha⟩ ⟨hk, hT⟩ => ?_
    rw [hk, hT]
    exact .call hc ha id
  | select span value field form =>
    rw [emit, Node.emit]
    refine (emit_traces value).bind fun v => (select_traces holds span v field form).mono ?_
    intro s₁ id hs s' h s gs hv
    refine hv.trans h fun hv ⟨c, hc, hk, hT⟩ => ?_
    rw [hk, hT]
    exact .select hv hc id
  | function span name params body =>
    rw [emit, Node.emit]
    exact .watch fun s id s' h => absurd h Emit.fail_ne_ok
  | list span items =>
    rw [emit, Node.emit]
    refine (emitItems_traces items).bind fun last => (conclude_traces holds span last).mono ?_
    intro s₁ id hs s' h s gs hi
    refine hi.trans h fun ⟨ids, hi, hl⟩ hc => ?_
    rw [hl] at hc
    exact .list hi hc

theorem emitArgs_traces (args : List Node) :
    Traces (emitArgs builtin args) (Node.emitArgs builtin args) fun s ids gs s' =>
      s.Passes holds s' (Node.RendersAll builtin holds args s.tables gs ids s'.tables) := by
  cases args with
  | nil =>
    rw [emitArgs, Node.emitArgs]
    exact .pure [] fun s => ⟨.refl _, rfl, fun _ => .nil⟩
  | cons arg args =>
    rw [emitArgs, Node.emitArgs]
    refine (emit_traces arg).bind fun id => (emitArgs_traces args).bind fun ids => .pure _ ?_
    intro s₂ s₁ hs ha s gs hi
    rw [List.append_nil]
    exact hi.trans ha .cons

theorem emitItems_traces (items : List Node) :
    Traces (emitItems builtin items) (Node.emitItems builtin items) fun s last gs s' =>
      s.Passes holds s' (∃ ids, Node.RendersAll builtin holds items s.tables gs ids s'.tables ∧
        last.map Prod.fst = ids.getLast?) := by
  match items with
  | [] =>
    rw [emitItems, Node.emitItems]
    exact .pure none fun s => ⟨.refl _, rfl, fun _ => ⟨[], .nil, rfl⟩⟩
  | [item] =>
    rw [emitItems, Node.emitItems]
    refine (emit_traces item).bind fun id => .pure _ fun s₁ s gs hi => ?_
    exact hi.mono fun hi => ⟨[id], .cons hi .nil, rfl⟩
  | item :: item' :: items =>
    rw [emitItems.eq_3 builtin _ _ (by simp), Node.emitItems.eq_3 builtin _ _ (by simp)]
    refine (emit_traces item).bind fun id => (emitItems_traces (item' :: items)).mono ?_
    intro s₁ last hs s' ha s gs hi
    refine hi.trans ha fun hi ⟨ids, ha, hl⟩ => ⟨id :: ids, .cons hi ha, ?_⟩
    cases ha with
    | cons => rw [hl, List.getLast?_cons_cons]

end

/-! ## Functions -/

theorem hoist_names {items : List Node} {s s' : Emission} {ids : List ValueId}
    (h : Emit.hoist items s = .ok (ids, s')) :
    s'.scope.names = ((Node.functionNames items).zip ids).reverse ++ s.scope.names ∧
      s'.scope.literals = s.scope.literals ∧ s'.pool = s.pool ∧
      ids.length = (Node.functionNames items).length := by
  induction items generalizing s ids with
  | nil =>
    obtain ⟨rfl, rfl⟩ := Emit.pure_eq_ok h
    exact ⟨rfl, rfl, rfl, rfl⟩
  | cons item items ih =>
    cases item with
    | function span name params body =>
      rw [Emit.hoist] at h
      obtain ⟨_, s₁, h₁, h⟩ := Emit.bind_eq_ok h
      obtain ⟨id, s₂, h₂, h⟩ := Emit.bind_eq_ok h
      obtain ⟨_, s₃, h₃, h⟩ := Emit.bind_eq_ok h
      obtain ⟨ids', s₄, h₄, h⟩ := Emit.bind_eq_ok h
      obtain ⟨rfl, rfl⟩ := Emit.pure_eq_ok h
      obtain ⟨rfl, -⟩ := Emit.requireFree_eq_ok h₁
      cases h₂
      cases h₃
      obtain ⟨hn, hl, hp, hc⟩ := ih h₄
      refine ⟨?_, hl, hp, ?_⟩
      · rw [hn, Node.functionNames, List.zip_cons_cons, List.reverse_cons, List.append_assoc]
        rfl
      · rw [Node.functionNames, List.length_cons, List.length_cons, hc]
    | _ =>
      rw [Emit.hoist] at h
      · exact ih h
      · simp

theorem parameters_names {span : Span} (seen names : List String) {scope scope' : Scope}
    {s s' : Emission} (h : Emit.enter.parameters span seen names scope s = .ok (scope', s')) :
    scope'.names = (names.zip (run scope.next names.length)).reverse ++ scope.names ∧
      scope'.literals = scope.literals ∧ s' = s := by
  induction names generalizing seen scope with
  | nil =>
    obtain ⟨rfl, rfl⟩ := Emit.pure_eq_ok h
    exact ⟨rfl, rfl, rfl⟩
  | cons name names ih =>
    rw [Emit.enter.parameters] at h
    split at h
    · exact absurd h Emit.fail_ne_ok
    · obtain ⟨hn, hl, hs⟩ := ih _ h
      refine ⟨?_, hl, hs⟩
      rw [hn, List.length_cons, Given.run_succ, List.zip_cons_cons, List.reverse_cons,
        List.append_assoc]
      rfl

/-- Parameters are bound to the next numbers. -/
theorem enter_names {params : List String} {span : Span} {s s' : Emission} {u : Unit}
    (h : Emit.enter params span s = .ok (u, s')) :
    s'.scope.names = (params.zip (run s.scope.next params.length)).reverse ∧
      s'.scope.literals = [] ∧ s'.pool = s.pool := by
  obtain ⟨_, s₁, h₁, h⟩ := Emit.bind_eq_ok h
  cases h₁
  obtain ⟨_, s₂, h₂, h⟩ := Emit.bind_eq_ok h
  cases h₂
  obtain ⟨scope, s₃, h₃, h⟩ := Emit.bind_eq_ok h
  cases h
  obtain ⟨hn, hl, hs⟩ := parameters_names [] params h₃
  cases hs
  exact ⟨by simpa [Scope.startingAt] using hn, hl, rfl⟩

/-- The statements of a body, with the number of its value. -/
def Statements (builtin : String → Option ValueId) (holds : ConstantId → Constant → Prop)
    (ids : List ValueId) (items : List Node) (T : Tables) (gs : List Given) (id : ValueId)
    (T' : Tables) : Prop :=
  ∃ gs₁ hs last T₁, gs = gs₁ ++ hs ∧ Node.RendersBody builtin holds ids items T gs₁ last T₁ ∧
    Concludes builtin T₁ last hs id T'

theorem scope_traces (params : List String) (span : Span) (hoisted : List ValueId) {body : Node}
    {y : List ValueId → Recorder ValueId} {x : List ValueId → Emit ValueId}
    (h : ∀ ids, Traces (y ids) (x ids) fun s id gs s' => s.Passes holds s'
      (Statements builtin holds ids body.bodyItems s.tables gs id s'.tables)) :
    Traces (scope params span hoisted body.bodyItems y)
      (do
        Emit.enter params span
        let ids ← Emit.hoist body.bodyItems
        let _ ← x ids
        Emit.leave
        Node.takeNumber span hoisted)
      fun s r gs s' => ∃ n, gs = [.function r.1 n] ∧ hoisted = r.1 :: r.2 ∧ s'.tables = s.tables ∧
        s.Passes holds s' (Node.RendersFunction builtin holds params body s.tables n) := by
  intro s r s' hx
  obtain ⟨_, s₁, h₁, hx⟩ := Emit.bind_eq_ok hx
  obtain ⟨ids, s₂, h₂, hx⟩ := Emit.bind_eq_ok hx
  obtain ⟨result, s₃, h₃, hx⟩ := Emit.bind_eq_ok hx
  obtain ⟨_, s₄, h₄, h₅⟩ := Emit.bind_eq_ok hx
  obtain ⟨ha₁, -, -, -, hlast₁⟩ := enter_eq_ok h₁
  obtain ⟨hn₁, hl₁, hp₁⟩ := enter_names h₁
  obtain ⟨ha₂, -, -, -, -, hlast₂⟩ := hoist_eq_ok h₂
  obtain ⟨hn₂, hl₂, hp₂, hcount⟩ := hoist_names h₂
  obtain ⟨gs, hy, hpass⟩ := h ids h₃
  have ha₃ : s₃.around = s.scope :: s.around := hpass.around.trans (ha₂.trans ha₁)
  obtain rfl := leave_eq_ok ha₃ h₄
  cases hoisted with
  | nil => cases h₅
  | cons id hoisted =>
    have h₅' := h₅
    obtain ⟨rfl, rfl⟩ := Emit.pure_eq_ok h₅
    have hids : s₁.scope.names.reverse.map Prod.snd = run s.scope.next params.length := by
      rw [hn₁, List.reverse_reverse, List.map_snd_zip (by simp)]
    have htables : s₂.tables = s.tables.enter (params.zip (run s.scope.next params.length))
        ((Node.functionNames body.bodyItems).zip ids) := by
      simp only [Emission.tables, Tables.enter, hn₂, hn₁, hl₂, hl₁, hlast₂, hlast₁, ha₂, ha₁,
        List.flatMap_cons, Option.or_none, List.append_assoc, List.map_snd_zip (Nat.le_of_eq hcount)]
    refine ⟨[.function id ⟨s.scope.next, run s.scope.next params.length, ids, gs, result⟩],
      fun before => ?_, _, rfl, rfl, rfl, ?_, rfl, fun hs => ?_⟩
    · unfold scope
      rw [bind_ok (show (getThe Emission : Recorder Emission) before s = .ok ((s, before), s) from rfl),
        bind_ok (lift_ok h₁ before),
        bind_ok (show (getThe Emission : Recorder Emission) before s₁ = .ok ((s₁, before), s₁) from rfl),
        hids]
      have hbody : Recorder.body body.bodyItems y s₁ = .ok ((ids, result, gs), s₃) := by
        unfold Recorder.body
        rw [Emit.bind_ok h₂, Emit.bind_ok (show y ids [] s₂ = _ from hy [])]
        rfl
      rw [bind_ok (lift_ok hbody before)]
      dsimp only
      rw [bind_ok (lift_ok h₄ before), bind_ok (lift_ok h₅' before)]
      rfl
    · show s.pool.Le s₃.pool
      rw [← hp₁, ← hp₂]
      exact hpass.pool
    · obtain ⟨gs₁, hs₁, last, T₁, rfl, hb, hc⟩ := hpass.holds hs
      rw [htables] at hb
      exact .intro (Given.length_run ..) hcount hb hc

/-! ## Statements -/

theorem statements_traces (holds : ConstantId → Constant → Prop) {items : List Node} (span : Span)
    (h : ∀ ids, Traces (emitStatements builtin ids items) (Node.emitStatements builtin ids items)
      fun s last gs s' => s.Passes holds s' (Node.RendersBody builtin holds ids items s.tables gs
        (last.map Prod.fst) s'.tables)) (ids : List ValueId) :
    Traces (do watch (Emit.conclude builtin span (← emitStatements builtin ids items)))
      (do Emit.conclude builtin span (← Node.emitStatements builtin ids items)) fun s id gs s' =>
        s.Passes holds s' (Statements builtin holds ids items s.tables gs id s'.tables) := by
  refine (h ids).bind fun last => (conclude_traces holds span last).mono ?_
  intro s₁ id hs s' hc s gs hb
  exact hb.trans hc fun hb hc => ⟨gs, hs, _, _, rfl, hb, hc⟩

/-- What comes of a statement: a value, or a function with the number that was set aside for it. -/
def Statement (builtin : String → Option ValueId) (holds : ConstantId → Constant → Prop)
    (hoisted : List ValueId) (item : Node) (s : Emission) (r : ValueId × List ValueId)
    (gs : List Given) (s' : Emission) : Prop :=
  s.Passes holds s' (∀ {items hs last T'},
    Node.RendersBody builtin holds r.2 items s'.tables hs last T' →
      Node.RendersBody builtin holds hoisted (item :: items) s.tables (gs ++ hs)
        (some (last.getD r.1)) T')

theorem emitStatements_traces :
    (∀ (item : Node) (hoisted : List ValueId),
      Traces (emitStatement builtin hoisted item) (Node.emitStatement builtin hoisted item)
        (Statement builtin holds hoisted item)) ∧
    ∀ (items : List Node) (hoisted : List ValueId),
      Traces (emitStatements builtin hoisted items) (Node.emitStatements builtin hoisted items)
        fun s last gs s' => s.Passes holds s' (Node.RendersBody builtin holds hoisted items s.tables
          gs (last.map Prod.fst) s'.tables) := by
  refine Node.statement_induct ?function ?expression ?nil ?single ?cons
  case function =>
    intro span name params body ih hoisted
    rw [emitStatement_function, Node.emitStatement_function]
    have hscope := scope_traces params span hoisted (statements_traces holds body.span ih)
    simp only [bind_assoc] at hscope
    refine hscope.mono fun s r gs s' ⟨n, hgs, hids, hT, hp⟩ => hp.mono ?_
    intro hn items hs last T' h
    rw [hgs, hids]
    rw [hT] at h
    exact .function hn h
  case expression =>
    intro item hitem hoisted
    rw [emitStatement_of_not_isFunction hitem, Node.emitStatement_of_not_isFunction hitem]
    refine (@emit_traces builtin holds item).bind fun id => .pure (id, hoisted) fun s₁ s gs hi => ?_
    refine hi.mono fun hi {items hs last T'} h => ?_
    rw [List.append_nil]
    exact .value hitem hi h
  case nil =>
    intro hoisted
    rw [emitStatements, Node.emitStatements]
    exact .pure none fun s => ⟨.refl _, rfl, fun _ => .nil⟩
  case single =>
    intro item ih hoisted
    rw [emitStatements, Node.emitStatements]
    refine (ih hoisted).bind fun r => .pure _ fun s₁ s gs hi => ?_
    exact hi.mono fun hi => hi .nil
  case cons =>
    intro item item' items ih ihs hoisted
    rw [emitStatements.eq_3 builtin _ _ _ (by simp), Node.emitStatements.eq_3 builtin _ _ _ (by simp)]
    refine (ih hoisted).bind fun r => (ihs r.2).mono ?_
    intro s₁ last hs s' ha s gs hi
    refine hi.trans ha fun hi ha => ?_
    have h := hi ha
    cases last with
    | none =>
      generalize r.2 = ids at ha
      cases ha
    | some x => exact h

end Recorder

/-! ## Programs -/

/-- **The record of a compiled program is related to its tree**, with the constants of its unit. -/
theorem Node.renders_of_compile {root : Node} {e : Environment} {code : Code}
    (hw : root.weight < 2 ^ 31) (hs : e.size ≤ 2 ^ 31) (hc : root.compile e.idOf? = .ok code) :
    ∃ n, root.record e.idOf? = .ok n ∧ RendersFunction e.idOf?
      (fun c k => code.constants[c.toNat]? = some k) [] root ⟨[], [], none⟩ n := by
  have hb {name : String} {id : ValueId} (h : e.idOf? name = some id) : id < 0 ∧ True := by
    obtain ⟨index, hi, rfl⟩ := Option.map_eq_some_iff.mp h
    have hlt := (List.findIdx?_eq_some_iff_findIdx_eq.mp hi).1
    exact ⟨Environment.idAt_neg (Nat.lt_of_lt_of_le hlt hs), trivial⟩
  obtain ⟨span, items, id, s, constants, rfl, hp, hl, rfl⟩ := compile_eq_ok hc
  rw [weight] at hw
  obtain ⟨ids, s₁, h₁, h₂⟩ := Emit.bind_eq_ok hp
  obtain ⟨last, s₂, h₃, h₄⟩ := Emit.bind_eq_ok h₂
  have hr : Emission.Room ⟨.startingAt 0, [], .empty, #[]⟩ 0 (weights items + 1) :=
    ⟨by omega, by show 0 + _ < _; omega⟩
  obtain ⟨ps, hsound⟩ := StatementsExtend.body hb (statements_extend hb items) sound_start hr h₁ h₃ h₄
  obtain ⟨hn, hlits, hpool, hcount⟩ := Recorder.hoist_names h₁
  obtain ⟨haround, -, -, -, -, hlast⟩ := Recorder.hoist_eq_ok h₁
  obtain ⟨gs, hy, hpass⟩ := Recorder.statements_traces
    (fun c k => constants[c.toNat]? = some k) span
    (Recorder.emitStatements_traces.2 items) ids h₂
  have htables : s₁.tables = Tables.enter ⟨[], [], none⟩ (List.zip [] [])
      ((functionNames items).zip ids) := by
    simp [Emission.tables, Tables.enter, hn, hlits, haround, hlast, Scope.startingAt,
      List.map_snd_zip (Nat.le_of_eq hcount)]
  refine ⟨⟨0, [], ids, gs, id⟩, ?_, ?_⟩
  · have hbody : Recorder.body items (fun ids => do
        Recorder.watch (Emit.conclude e.idOf? span (← Recorder.emitStatements e.idOf? ids items)))
        ⟨.startingAt 0, [], .empty, #[]⟩ = .ok ((ids, id, gs), s) := by
      unfold Recorder.body
      rw [Emit.bind_ok h₁, Emit.bind_ok (hy [])]
      rfl
    rw [record]
    exact (congrArg (· >>= _) hbody).trans rfl
  · obtain ⟨gs₁, hs, last, T₁, rfl, hbody, hconclude⟩ :=
      hpass.holds fun {c k} hk => hsound.sound.pool.getElem?_layout hl hk
    rw [htables] at hbody
    exact .intro rfl hcount hbody hconclude

end Dataflow
