import Dataflow.Proofs.Compile.ExactPool
import Dataflow.Proofs.Source.Subtrees

/-!
# Well-scoped programs

A name stands for what has been bound before: a parameter, a function or an assigned name of its own
scope, something that the scopes around had bound where the function is declared, or something built
in. Compiling keeps names in tables of open scopes, which are searched from the inside out; it fails
just where a rule is broken.

* `Node.binds`, `Node.functionNames`: the names that a tree binds in its scope;
* `Node.Resolves`: every name stands for something;
* `Node.Placed`: functions are declared where they can be hoisted;
* `Node.WellScoped`: the rules for programs;
* `Emit.Decides`: a step of compiling succeeds just under a condition on the names that are known;
* **`Node.compile_isOk_iff`**: what compiles is well scoped and has no more constants than positions.
-/

namespace Dataflow

namespace Node

/-! ## Rules -/

/-- The functions declared directly among statements. -/
def functionNames : List Node → List String
  | [] => []
  | .function _ name _ _ :: items => name :: functionNames items
  | _ :: items => functionNames items

mutual

/-- The names that a tree assigns in its own scope, in order. -/
@[simp]
def binds : Node → List String
  | .literal .. | .ident .. | .function .. => []
  | .assign _ names value => value.binds ++ names
  | .call _ callee args => callee.binds ++ bindsAll args
  | .select _ value _ _ => value.binds
  | .list _ items => bindsAll items

/-- The names that trees assign in their scope. -/
@[simp]
def bindsAll : List Node → List String
  | [] => []
  | item :: items => item.binds ++ bindsAll items

end

mutual

/-- Every name has been bound before, among its `own` scope's names or those of the scopes around, or it
is built in. -/
@[simp]
def Resolves (builtin : String → Option ValueId) (own outer : List String) : Node → Prop
  | .literal .. => True
  | .ident _ name => name ∈ own ∨ name ∈ outer ∨ (builtin name).isSome
  | .assign _ _ value | .select _ value _ _ => value.Resolves builtin own outer
  | .call _ callee args =>
    callee.Resolves builtin own outer ∧ AllResolve builtin (own ++ callee.binds) outer args
  | .function _ _ params body =>
    body.Resolves builtin (params ++ functionNames body.bodyItems) (own ++ outer)
  | .list _ items => AllResolve builtin own outer items

/-- What a tree binds is known in those behind it. -/
@[simp]
def AllResolve (builtin : String → Option ValueId) (own outer : List String) : List Node → Prop
  | [] => True
  | item :: items =>
    item.Resolves builtin own outer ∧ AllResolve builtin (own ++ item.binds) outer items

end

/-- Where a tree stands: as the body of a function or the root, as a statement of such a body, or
anywhere else. -/
inductive Place where
  | body
  | statement
  | operand

mutual

/-- Functions are declared only as statements of bodies. -/
@[simp]
def Placed : Place → Node → Prop
  | _, .literal .. | _, .ident .. => True
  | _, .assign _ _ value | _, .select _ value _ _ => value.Placed .operand
  | _, .call _ callee args => callee.Placed .operand ∧ AllPlaced .operand args
  | place, .function _ _ _ body => place ≠ .operand ∧ body.Placed .body
  | .body, .list _ items => AllPlaced .statement items
  | .statement, .list _ items | .operand, .list _ items => AllPlaced .operand items

/-- All of them stand at one kind of place. -/
@[simp]
def AllPlaced (place : Place) : List Node → Prop
  | [] => True
  | item :: items => item.Placed place ∧ AllPlaced place items

end

/-- The field is known and admits the form, or it may be a member that is not known. -/
def Selectable (field : String) (form : Form) : Prop :=
  match staticForms? field with
  | some forms => forms.admits form = true
  | none => form = .member ∧ isFieldName field = true

/-- The rules for programs. -/
structure WellScoped (builtin : String → Option ValueId) (root : Node) : Prop where
  isList : ∃ span items, root = .list span items
  names : root.Resolves builtin (functionNames root.bodyItems) []
  /-- The root's scope does not bind a name twice. -/
  distinct : (functionNames root.bodyItems ++ root.binds).Nodup
  /-- No other scope does either. -/
  distinctWithin : ∀ span name params body, .function span name params body ∈ root.subtrees →
    (params ++ functionNames body.bodyItems ++ body.binds).Nodup
  placed : root.Placed .body
  fields : ∀ span value field form, .select span value field form ∈ root.subtrees →
    Selectable field form
  /-- A list without statements has the value of `unit`. -/
  unit : ∀ span, .list span [] ∈ root.subtrees → (builtin "unit").isSome

/-! ## Rules of parts -/

section Scoped

variable {builtin : String → Option ValueId} {place : Place} {own outer : List String}

/-- The rules that concern one tree only. -/
def Fine (builtin : String → Option ValueId) : Node → Prop
  | .function _ _ params body => (params ++ functionNames body.bodyItems ++ body.binds).Nodup
  | .select _ _ field form => Selectable field form
  | .list _ items => items = [] → (builtin "unit").isSome
  | .literal .. | .ident .. | .assign .. | .call .. => True

theorem forall_fine_iff {trees : List Node} : (∀ t ∈ trees, t.Fine builtin) ↔
    (∀ span name params body, .function span name params body ∈ trees →
      (params ++ functionNames body.bodyItems ++ body.binds).Nodup) ∧
    (∀ span value field form, .select span value field form ∈ trees → Selectable field form) ∧
    ∀ span, .list span [] ∈ trees → (builtin "unit").isSome := by
  refine ⟨fun h => ⟨fun _ _ _ _ ht => h _ ht, fun _ _ _ _ ht => h _ ht, fun _ ht => h _ ht rfl⟩,
    fun ⟨hfunction, hselect, hlist⟩ t ht => ?_⟩
  cases t with
  | function => exact hfunction _ _ _ _ ht
  | select => exact hselect _ _ _ _ ht
  | list =>
    rintro rfl
    exact hlist _ ht
  | literal | ident | assign | call => trivial

/-- The rules for a tree at a place where some names are bound. -/
def Scoped (builtin : String → Option ValueId) (place : Place) (node : Node)
    (own outer : List String) : Prop :=
  node.Resolves builtin own outer ∧ node.binds.Nodup ∧ own.Disjoint node.binds ∧
    node.Placed place ∧ ∀ t ∈ node.subtrees, t.Fine builtin

/-- The rules for trees one behind the other. -/
def AllScoped (builtin : String → Option ValueId) (place : Place) (items : List Node)
    (own outer : List String) : Prop :=
  AllResolve builtin own outer items ∧ (bindsAll items).Nodup ∧ own.Disjoint (bindsAll items) ∧
    AllPlaced place items ∧ ∀ t ∈ subtreesAll items, t.Fine builtin

theorem scoped_literal (span : Span) (l : Literal) :
    (literal span l).Scoped builtin place own outer := by
  simp [Scoped, Resolves, binds, Placed, subtrees, Fine]

theorem scoped_ident {span : Span} {name : String} :
    (ident span name).Scoped builtin place own outer ↔
      name ∈ own ∨ name ∈ outer ∨ (builtin name).isSome := by
  simp [Scoped, Resolves, binds, Placed, subtrees, Fine]

theorem scoped_assign {span : Span} {names : List String} {value : Node} :
    (assign span names value).Scoped builtin place own outer ↔
      value.Scoped builtin .operand own outer ∧
        names.Nodup ∧ (own ++ value.binds).Disjoint names := by
  simp only [Scoped, Resolves, binds, Placed, subtrees, Fine, List.nodup_append',
    List.disjoint_append_left, List.disjoint_append_right, List.forall_mem_cons]
  tauto

theorem scoped_call {span : Span} {callee : Node} {args : List Node} :
    (call span callee args).Scoped builtin place own outer ↔
      callee.Scoped builtin .operand own outer ∧
        AllScoped builtin .operand args (own ++ callee.binds) outer := by
  simp only [Scoped, AllScoped, Resolves, binds, Placed, subtrees, Fine, List.nodup_append',
    List.disjoint_append_left, List.disjoint_append_right, List.forall_mem_cons,
    List.forall_mem_append]
  tauto

theorem scoped_select {span : Span} {value : Node} {field : String} {form : Form} :
    (select span value field form).Scoped builtin place own outer ↔
      value.Scoped builtin .operand own outer ∧ Selectable field form := by
  simp only [Scoped, Resolves, binds, Placed, subtrees, Fine, List.forall_mem_cons]
  tauto

theorem scoped_list {span : Span} {items : List Node} :
    (list span items).Scoped builtin .operand own outer ↔
      AllScoped builtin .operand items own outer ∧ (items = [] → (builtin "unit").isSome) := by
  simp only [Scoped, AllScoped, Resolves, binds, Placed, subtrees, Fine, List.forall_mem_cons]
  tauto

theorem allScoped_nil : AllScoped builtin place [] own outer := by
  simp [AllScoped, AllResolve, bindsAll, AllPlaced, subtreesAll]

theorem allScoped_cons {item : Node} {items : List Node} :
    AllScoped builtin place (item :: items) own outer ↔
      item.Scoped builtin place own outer ∧
        AllScoped builtin place items (own ++ item.binds) outer := by
  simp only [Scoped, AllScoped, AllResolve, bindsAll, AllPlaced, subtreesAll, List.nodup_append',
    List.disjoint_append_left, List.disjoint_append_right, List.forall_mem_append]
  tauto

/-- A body that is not a list is one statement. -/
theorem scoped_body {body : Node} : body.Scoped builtin .body own outer ↔
    AllScoped builtin .statement body.bodyItems own outer ∧
      (body.bodyItems = [] → (builtin "unit").isSome) := by
  cases body with
  | list span items =>
    simp only [Scoped, AllScoped, bodyItems, Resolves, binds, Placed, subtrees, Fine,
      List.forall_mem_cons]
    tauto
  | _ =>
    simp only [bodyItems, allScoped_cons, and_iff_left allScoped_nil, Scoped, Placed, ne_eq,
      reduceCtorEq, not_false_eq_true, false_implies, and_true]

theorem scoped_function {span : Span} {name : String} {params : List String} {body : Node} :
    (function span name params body).Scoped builtin place own outer ↔ place ≠ .operand ∧
      params.Nodup ∧ ((functionNames body.bodyItems).Nodup ∧
        params.Disjoint (functionNames body.bodyItems)) ∧
      body.Scoped builtin .body (params ++ functionNames body.bodyItems) (own ++ outer) := by
  simp only [Scoped, Resolves, binds, Placed, subtrees, Fine, List.nodup_append',
    List.disjoint_append_left, List.forall_mem_cons, List.nodup_nil, List.disjoint_nil_right]
  tauto

/-- Lists and functions apart, the rules are the same in all places. -/
theorem scoped_statement {item : Node} (h : item.isFunction = false) :
    item.Scoped builtin .statement own outer ↔ item.Scoped builtin .operand own outer := by
  cases item with
  | function => cases h
  | _ => simp only [Scoped, Placed]

end Scoped

end Node

/-! ## Steps of compiling -/

theorem Scope.binds_bind (scope : Scope) (name other : String) (id : ValueId) :
    (scope.bind name id).binds other = true ↔ scope.binds other = true ∨ other = name := by
  unfold binds bind
  rw [List.lookup_cons]
  by_cases h : other = name
  · simp [h]
  · simp only [beq_eq_false_iff_ne.mpr h, h, or_false]

/-- The names that are bound in the innermost scope, and those bound in the scopes around it. -/
structure Emission.Sees (s : Emission) (own outer : List String) : Prop where
  own : ∀ name, s.scope.binds name = true ↔ name ∈ own
  outer : ∀ name, (∃ scope ∈ s.around, scope.binds name = true) ↔ name ∈ outer

namespace Emit

theorem get_bind {α : Type} (f : Emission → Emit α) (s : Emission) : (get >>= f) s = f s s := rfl

/-- A step succeeds just if a condition on the known names holds, and it binds some names. -/
structure Decides {α : Type} (x : Emit α) (p : List String → List String → Prop)
    (names : List String) : Prop where
  exists_ok : ∀ {s own outer}, s.Sees own outer → p own outer → ∃ a s', x s = .ok (a, s')
  ok : ∀ {s own outer a s'}, s.Sees own outer → x s = .ok (a, s') →
    p own outer ∧ s'.Sees (own ++ names) outer ∧ s'.around = s.around

namespace Decides

variable {α β : Type} {x : Emit α} {p q : List String → List String → Prop} {names names' : List String}

theorem congr (hx : Decides x p names) (h : ∀ {own outer}, q own outer ↔ p own outer) :
    Decides x q names :=
  ⟨fun hs hq => hx.exists_ok hs (h.mp hq), fun hs he =>
    let ⟨hp, hs', ha⟩ := hx.ok hs he
    ⟨h.mpr hp, hs', ha⟩⟩

theorem bind {f : α → Emit β} (hx : Decides x p names)
    (hf : ∀ {s a s'}, x s = .ok (a, s') → Decides (f a) q names') :
    Decides (x >>= f) (fun own outer => p own outer ∧ q (own ++ names) outer) (names ++ names') := by
  refine ⟨fun hs ⟨hp, hq⟩ => ?_, fun hs he => ?_⟩
  · obtain ⟨a, s₁, h₁⟩ := hx.exists_ok hs hp
    obtain ⟨-, hs₁, -⟩ := hx.ok hs h₁
    obtain ⟨b, s₂, h₂⟩ := (hf h₁).exists_ok hs₁ hq
    exact ⟨b, s₂, (bind_ok h₁ f).trans h₂⟩
  · obtain ⟨a, s₁, h₁, h₂⟩ := bind_eq_ok he
    obtain ⟨hp, hs₁, ha₁⟩ := hx.ok hs h₁
    obtain ⟨hq, hs₂, ha₂⟩ := (hf h₁).ok hs₁ h₂
    rw [List.append_assoc] at hs₂
    exact ⟨⟨hp, hq⟩, hs₂, ha₂.trans ha₁⟩

/-- A step that always succeeds and binds nothing. -/
theorem total (h : ∀ s, ∃ a s', x s = .ok (a, s') ∧ s'.scope.names = s.scope.names ∧
    s'.around = s.around) : Decides x (fun _ _ => True) [] := by
  refine ⟨fun {s _ _} _ _ => ?_, fun {s own outer a s'} hs he => ?_⟩
  · obtain ⟨a, s', he, -⟩ := h s
    exact ⟨a, s', he⟩
  · obtain ⟨a', s₁, he', hn, ha⟩ := h s
    cases he.symm.trans he'
    rw [List.append_nil]
    refine ⟨trivial, ⟨fun name => ?_, fun name => ?_⟩, ha⟩
    · rw [← hs.own, Scope.binds, Scope.binds, hn]
    · rw [← hs.outer, ha]

/-- A step that changes nothing, but may fail. -/
theorem check (h : ∀ {s own outer}, s.Sees own outer → (p own outer → ∃ a, x s = .ok (a, s)) ∧
    ∀ a s', x s = .ok (a, s') → p own outer ∧ s' = s) : Decides x p [] := by
  refine ⟨fun {s _ _} hs hp => ?_, fun {s own outer a s'} hs he => ?_⟩
  · obtain ⟨a, ha⟩ := (h hs).1 hp
    exact ⟨a, s, ha⟩
  · obtain ⟨hp, rfl⟩ := (h hs).2 a s' he
    rw [List.append_nil]
    exact ⟨hp, hs, rfl⟩

/-- What binds nothing, before or after a step that always succeeds. -/
theorem bind_total {f : α → Emit β} (hx : Decides x p names)
    (hf : ∀ a, Decides (f a) (fun _ _ => True) []) : Decides (x >>= f) p names := by
  have h := hx.bind fun {_ a _} _ => hf a
  rw [List.append_nil] at h
  exact h.congr (and_true _).symm.to_iff

theorem total_bind {f : α → Emit β} (hx : Decides x (fun _ _ => True) [])
    (hf : ∀ {s a s'}, x s = .ok (a, s') → Decides (f a) q names') : Decides (x >>= f) q names' :=
  (hx.bind hf).congr fun {own _} => by simp

theorem pure (a : α) : Decides (Pure.pure a : Emit α) (fun _ _ => True) [] :=
  .total fun s => ⟨a, s, rfl, rfl, rfl⟩

theorem fail {cause : CompileError.Cause} {span : Span} :
    Decides (Emit.fail cause span : Emit α) (fun _ _ => False) names :=
  ⟨fun _ hp => hp.elim, fun _ he => absurd he fail_ne_ok⟩

theorem fail_bind {cause : CompileError.Cause} {span : Span} {f : α → Emit β} :
    Decides (Emit.fail cause span >>= f) (fun _ _ => False) names := by
  refine ⟨fun _ hp => hp.elim, fun _ he => ?_⟩
  obtain ⟨_, _, h, -⟩ := bind_eq_ok he
  exact absurd h fail_ne_ok

theorem allocate : Decides Emit.allocate (fun _ _ => True) [] :=
  .total fun _ => ⟨_, _, rfl, rfl, rfl⟩

theorem emitValue (i : Instruction) : Decides (Emit.emitValue i) (fun _ _ => True) [] :=
  .total fun _ => ⟨_, _, rfl, rfl, rfl⟩

theorem call (callee : ValueId) (args : List ValueId) :
    Decides (Emit.call callee args) (fun _ _ => True) [] :=
  .total fun s => ⟨_, _, call_eq callee args s, rfl, rfl⟩

theorem literal (l : Literal) : Decides (Emit.literal l) (fun _ _ => True) [] := by
  refine .total fun s => ?_
  cases he : Emit.literal l s with
  | error e => exact absurd he literal_ne_error
  | ok r =>
    obtain ⟨id, s'⟩ := r
    refine ⟨id, s', rfl, ?_⟩
    rcases literal_eq_ok he with ⟨-, h⟩ | ⟨-, -, h⟩ <;> rw [h] <;> exact ⟨rfl, rfl⟩

theorem field (value : ValueId) (field : String) (form : Form) :
    Decides (do
      let name ← Emit.intern (.ofText field)
      Emit.emitValue (.field value name form)) (fun _ _ => True) [] :=
  .total fun _ => ⟨_, _, rfl, rfl, rfl⟩

theorem ite {c : Prop} [Decidable c] {cause : CompileError.Cause} {span : Span}
    (hx : Decides x (fun _ _ => True) []) :
    Decides (if c then x else Emit.fail cause span) (fun _ _ => c) [] := by
  by_cases h : c
  · rw [if_pos h]
    exact hx.congr (iff_true_intro h)
  · rw [if_neg h]
    exact fail.congr (iff_false_intro h)

theorem requireField (field : String) (form : Form) (span : Span) :
    Decides (Emit.requireField field form span) (fun _ _ => Node.Selectable field form) [] := by
  unfold Emit.requireField Node.Selectable
  cases staticForms? field with
  | some forms => exact ite (pure ())
  | none => exact ite (pure ())

theorem resolve (builtin : String → Option ValueId) (name : String) (span : Span) :
    Decides (Emit.resolve builtin name span)
      (fun own outer => name ∈ own ∨ name ∈ outer ∨ (builtin name).isSome) [] := by
  refine .check fun {s own outer} hs => ?_
  have hknown : ((s.scope :: s.around).findSome? fun scope => scope.names.lookup name).isSome ↔
      name ∈ own ∨ name ∈ outer := by
    rw [List.isSome_findSome?, List.any_eq_true, List.exists_mem_cons_iff]
    exact or_congr (hs.own name) (hs.outer name)
  refine ⟨fun hp => ?_, fun id s' he => ?_⟩
  · rw [← or_assoc, ← hknown] at hp
    cases hf : (s.scope :: s.around).findSome? fun scope => scope.names.lookup name with
    | some id =>
      refine ⟨id, ?_⟩
      unfold Emit.resolve
      simp only [get_bind, hf]
      rfl
    | none =>
      rw [hf, Option.isSome_none, or_iff_right Bool.false_ne_true] at hp
      obtain ⟨id, hb⟩ := Option.isSome_iff_exists.mp hp
      refine ⟨id, ?_⟩
      unfold Emit.resolve
      simp only [get_bind, hf, hb]
      rfl
  · rw [← or_assoc, ← hknown]
    obtain ⟨rfl, hf | ⟨-, hb⟩⟩ := resolve_eq_ok he
    · exact ⟨.inl (by rw [hf, Option.isSome_some]), rfl⟩
    · exact ⟨.inr (by rw [hb, Option.isSome_some]), rfl⟩

theorem bindName (name : String) (id : ValueId) :
    Decides (Emit.bind name id) (fun _ _ => True) [name] := by
  refine ⟨fun _ _ => ⟨_, _, rfl⟩, fun {s own outer _ _} hs he => ?_⟩
  cases he
  refine ⟨trivial, ⟨fun other => ?_, hs.outer⟩, rfl⟩
  rw [Scope.binds_bind, hs.own, List.mem_append, List.mem_singleton]

theorem forM_bindName (names : List String) (id : ValueId) :
    Decides (names.forM fun name => Emit.bind name id : Emit PUnit) (fun _ _ => True) names := by
  induction names with
  | nil => exact .pure _
  | cons name names ih =>
    exact ((bindName name id).bind fun _ => ih).congr (by simp)

theorem requireFree (name : String) (span : Span) :
    Decides (Emit.requireFree name span) (fun own _ => name ∉ own) [] := by
  refine .check fun {s own outer} hs => ⟨fun hp => ⟨(), ?_⟩, fun _ s' he => ?_⟩
  · show (if s.scope.binds name = true then Emit.fail _ span else Pure.pure () : Emit Unit) s = _
    rw [if_neg (mt (hs.own name).mp hp)]
    rfl
  · obtain ⟨rfl, hb⟩ := requireFree_eq_ok he
    rw [← hs.own, hb]
    exact ⟨Bool.false_ne_true, rfl⟩

theorem requireNew (span : Span) (seen names : List String) :
    Decides (Emit.requireNew span seen names)
      (fun own _ => names.Nodup ∧ seen.Disjoint names ∧ own.Disjoint names) [] := by
  induction names generalizing seen with
  | nil => exact (pure ()).congr (by simp)
  | cons name names ih =>
    have hnew := (requireFree name span).bind fun {_ _ _} _ => ih (seen ++ [name])
    rw [Emit.requireNew]
    by_cases h : name ∈ seen
    · rw [if_pos h]
      exact fail_bind.congr (by simp [h])
    · rw [if_neg h]
      refine hnew.congr fun {own outer} => ?_
      simp only [List.nodup_cons, List.disjoint_cons_right, List.disjoint_append_left,
        List.singleton_disjoint, List.append_nil, h, not_false_eq_true]
      tauto

theorem assign (names : List String) (value : ValueId) (span : Span) :
    Decides (Emit.assign names value span) (fun own _ => names.Nodup ∧ own.Disjoint names) names :=
  ((requireNew span [] names).bind fun _ =>
    (forM_bindName names value).bind_total fun _ => .pure _).congr (by simp)

theorem conclude (builtin : String → Option ValueId) (span : Span) (last : Option (ValueId × Bool)) :
    Decides (Emit.conclude builtin span last)
      (fun _ _ => last = none → (builtin "unit").isSome) [] := by
  unfold Emit.conclude
  cases last with
  | none =>
    cases hu : builtin "unit" with
    | none => exact fail.congr (by simp)
    | some unit => exact (emitValue _).congr (by simp)
  | some last =>
    refine (total fun s => ?_).congr (by simp)
    by_cases hc : last.2 = true ∨ s.scope.last ≠ some last.1
    · refine ⟨s.scope.next, withValue s [.copy last.1], ?_, rfl, rfl⟩
      simp only [get_bind, if_pos hc]
      exact emitValue_eq _ s
    · refine ⟨last.1, s, ?_, rfl, rfl⟩
      simp only [get_bind, if_neg hc]
      rfl

theorem hoist (items : List Node) :
    Decides (Emit.hoist items)
      (fun own _ => (Node.functionNames items).Nodup ∧ own.Disjoint (Node.functionNames items))
      (Node.functionNames items) := by
  induction items with
  | nil => exact (pure []).congr (by simp [Node.functionNames])
  | cons item items ih =>
    cases item with
    | function span name params body =>
      have h := (requireFree name span).bind fun {_ _ _} _ => allocate.total_bind fun {_ id _} _ =>
        (bindName name id).bind fun {_ _ _} _ => ih.bind_total fun ids => pure (id :: ids)
      refine h.congr fun {own outer} => ?_
      simp only [Node.functionNames, List.nodup_cons, List.disjoint_cons_right, List.append_nil,
        List.disjoint_append_left, List.singleton_disjoint]
      tauto
    | _ => exact ih

theorem takeNumber (span : Span) {hoisted : List ValueId} (h : hoisted ≠ []) :
    Decides (Node.takeNumber span hoisted) (fun _ _ => True) [] := by
  cases hoisted with
  | nil => exact absurd rfl h
  | cons id hoisted => exact .pure _

end Decides

/-! ## Function bodies -/

section Bodies

variable {s s' : Emission} {own outer : List String}

theorem parameters_exists (span : Span) {seen params : List String} (hn : params.Nodup)
    (hd : seen.Disjoint params) (scope : Scope) :
    ∃ scope', enter.parameters span seen params scope s = .ok (scope', s) := by
  induction params generalizing seen scope with
  | nil => exact ⟨scope, rfl⟩
  | cons name names ih =>
    rw [List.disjoint_cons_right] at hd
    rw [List.nodup_cons] at hn
    rw [enter.parameters, if_neg hd.1]
    exact ih hn.2 (List.disjoint_append_left.mpr ⟨hd.2, List.singleton_disjoint.mpr hn.1⟩) _

theorem parameters_binds {span : Span} {seen params : List String} {scope scope' : Scope}
    (h : enter.parameters span seen params scope s = .ok (scope', s')) :
    params.Nodup ∧ seen.Disjoint params ∧
      ∀ name, scope'.binds name = true ↔ scope.binds name = true ∨ name ∈ params := by
  induction params generalizing seen scope with
  | nil =>
    obtain ⟨rfl, -⟩ := pure_eq_ok h
    simp
  | cons name names ih =>
    rw [enter.parameters] at h
    split at h
    · exact absurd h fail_ne_ok
    · rename_i hname
      obtain ⟨hn, hd, hb⟩ := @ih _ (scope.allocate.2.bind name scope.allocate.1) h
      rw [List.disjoint_append_left, List.singleton_disjoint] at hd
      refine ⟨List.nodup_cons.mpr ⟨hd.2, hn⟩, List.disjoint_cons_right.mpr ⟨hname, hd.1⟩,
        fun other => ?_⟩
      rw [hb, Scope.binds_bind, List.mem_cons, or_assoc]
      rfl

theorem enter_exists {params : List String} (span : Span) (hn : params.Nodup) (s : Emission) :
    ∃ s', enter params span s = .ok ((), s') := by
  obtain ⟨scope, h⟩ := parameters_exists (s := { s with
    instructions := s.instructions.push (.enter (.ofNat params.length)) }) span hn
    (List.disjoint_nil_left params) (.startingAt s.scope.next)
  refine ⟨⟨{ scope with last := none }, s.scope :: s.around, s.pool,
    s.instructions.push (.enter (.ofNat params.length))⟩, ?_⟩
  exact (bind_ok rfl _).trans ((bind_ok rfl _).trans (bind_ok h _))

/-- In a body that has been opened only the parameters are bound. -/
theorem Sees.enter (hs : s.Sees own outer) {params : List String} {span : Span} {u : Unit}
    (h : enter params span s = .ok (u, s')) : params.Nodup ∧ s'.Sees params (own ++ outer) := by
  obtain ⟨_, s₁, h₁, h⟩ := bind_eq_ok h
  cases h₁
  obtain ⟨_, s₂, h₂, h⟩ := bind_eq_ok h
  cases h₂
  obtain ⟨scope, s₃, h₃, h⟩ := bind_eq_ok h
  cases h
  obtain ⟨hn, -, hb⟩ := parameters_binds h₃
  have hstart (name : String) : (Scope.startingAt s.scope.next).binds name = false := rfl
  refine ⟨hn, fun name => ?_, fun name => ?_⟩
  · exact (hb name).trans (by simp [hstart])
  · rw [List.mem_append, ← hs.own, ← hs.outer]
    exact List.exists_mem_cons_iff ..

theorem Decides.function {α : Type} {x : Emit α} {p : List String → List String → Prop}
    {names : List String} (hx : Decides x p names) (params : List String) (span : Span) :
    Decides (do
      enter params span
      let _ ← x
      leave) (fun own outer => params.Nodup ∧ p params (own ++ outer)) [] := by
  refine ⟨fun {s own outer} hs ⟨hn, hp⟩ => ?_, fun {s own outer _ s'} hs he => ?_⟩
  · obtain ⟨s₁, h₁⟩ := enter_exists span hn s
    obtain ⟨-, hs₁⟩ := Sees.enter hs h₁
    obtain ⟨a, s₂, h₂⟩ := hx.exists_ok hs₁ hp
    exact ⟨(), _, (bind_ok h₁ _).trans (bind_ok h₂ _)⟩
  · obtain ⟨_, s₁, h₁, he⟩ := bind_eq_ok he
    obtain ⟨a, s₂, h₂, h₃⟩ := bind_eq_ok he
    obtain ⟨hn, hs₁⟩ := Sees.enter hs h₁
    obtain ⟨hp, -, ha⟩ := hx.ok hs₁ h₂
    obtain rfl := leave_eq_ok (ha.trans (enter_eq_ok h₁).1) h₃
    rw [List.append_nil]
    exact ⟨⟨hn, hp⟩, ⟨hs.own, hs.outer⟩, rfl⟩

end Bodies

end Emit

/-! ## Programs -/

namespace Node

open Emit (Decides)

variable {builtin : String → Option ValueId}

theorem emitItems_eq_none {items : List Node} {s s' : Emission} {last : Option (ValueId × Bool)}
    (h : emitItems builtin items s = .ok (last, s')) : last = none ↔ items = [] := by
  induction items generalizing s with
  | nil =>
    obtain ⟨rfl, -⟩ := Emit.pure_eq_ok h
    simp
  | cons item items ih =>
    cases items with
    | nil =>
      obtain ⟨id, s₁, -, h⟩ := Emit.bind_eq_ok h
      obtain ⟨rfl, -⟩ := Emit.pure_eq_ok h
      simp
    | cons item' items =>
      obtain ⟨id, s₁, -, h⟩ := Emit.bind_eq_ok h
      simpa using ih h

mutual

/-- Compiling an expression succeeds just if it is well scoped. -/
theorem emit_decides (node : Node) :
    Decides (emit builtin node) (node.Scoped builtin .operand) node.binds := by
  cases node with
  | literal span l => exact (Decides.literal l).congr (iff_true_intro (scoped_literal span l))
  | ident span name => exact (Decides.resolve builtin name span).congr scoped_ident
  | assign span names value =>
    exact ((emit_decides value).bind fun {_ id _} _ => .assign names id span).congr scoped_assign
  | call span callee args =>
    exact ((emit_decides callee).bind fun {_ id _} _ =>
      (emitArgs_decides args).bind_total fun ids => .call id ids).congr scoped_call
  | select span value field form =>
    have h := (emit_decides value).bind fun {_ id _} _ =>
      (Decides.requireField field form span).bind_total fun _ => .field id field form
    rw [List.append_nil] at h
    rw [emit]
    exact h.congr scoped_select
  | function span name params body =>
    rw [emit]
    exact Decides.fail.congr (by simp [scoped_function])
  | list span items =>
    have h := (emitItems_decides items).bind fun {_ last _} he =>
      (Decides.conclude builtin span last).congr (imp_congr_left (emitItems_eq_none he).symm)
    rw [List.append_nil] at h
    rw [emit]
    exact h.congr scoped_list

theorem emitArgs_decides (args : List Node) :
    Decides (emitArgs builtin args) (AllScoped builtin .operand args) (bindsAll args) := by
  cases args with
  | nil => exact (Decides.pure []).congr (iff_true_intro allScoped_nil)
  | cons arg args =>
    exact ((emit_decides arg).bind fun {_ id _} _ =>
      (emitArgs_decides args).bind_total fun ids => .pure (id :: ids)).congr allScoped_cons

theorem emitItems_decides (items : List Node) :
    Decides (emitItems builtin items) (AllScoped builtin .operand items) (bindsAll items) := by
  match items with
  | [] => exact (Decides.pure none).congr (iff_true_intro allScoped_nil)
  | [item] =>
    refine ((emit_decides item).bind fun {_ id _} _ => .pure (some (id, item.isIdent))).congr ?_
    exact allScoped_cons.trans (and_congr_right' (iff_true_intro allScoped_nil))
  | item :: item' :: items =>
    exact ((emit_decides item).bind fun _ => emitItems_decides (item' :: items)).congr
      allScoped_cons

end

/-! ## Statements -/

theorem hoist_length {items : List Node} {hoisted : List ValueId} {s s' : Emission}
    (h : Emit.hoist items s = .ok (hoisted, s')) : hoisted.length = functionCount items := by
  induction items generalizing s s' hoisted with
  | nil =>
    obtain ⟨rfl, -⟩ := Emit.pure_eq_ok h
    rfl
  | cons item items ih =>
    cases item with
    | function span name params body =>
      obtain ⟨_, s₁, -, h⟩ := Emit.bind_eq_ok h
      obtain ⟨_, s₂, -, h⟩ := Emit.bind_eq_ok h
      obtain ⟨_, s₃, -, h⟩ := Emit.bind_eq_ok h
      obtain ⟨ids, s₄, h₄, h⟩ := Emit.bind_eq_ok h
      obtain ⟨rfl, -⟩ := Emit.pure_eq_ok h
      rw [List.length_cons, ih h₄, functionCount_cons, Nat.add_comm]
      rfl
    | _ =>
      rw [functionCount_cons]
      exact (ih h).trans (Nat.zero_add _).symm

/-- A statement takes a number just if it is a function. -/
theorem emitStatement_hoisted {item : Node} {hoisted hoisted' : List ValueId} {id : ValueId}
    {s s' : Emission} (h : emitStatement builtin hoisted item s = .ok ((id, hoisted'), s')) :
    hoisted.length = functionCount [item] + hoisted'.length := by
  by_cases hitem : item.isFunction = true
  · obtain ⟨span, name, params, body, rfl⟩ := exists_of_isFunction hitem
    rw [emitStatement_function] at h
    obtain ⟨_, s₁, -, h⟩ := Emit.bind_eq_ok h
    obtain ⟨_, s₂, -, h⟩ := Emit.bind_eq_ok h
    obtain ⟨_, s₃, -, h⟩ := Emit.bind_eq_ok h
    obtain ⟨_, s₄, -, h⟩ := Emit.bind_eq_ok h
    obtain ⟨_, s₅, -, h⟩ := Emit.bind_eq_ok h
    cases hoisted with
    | nil => cases h
    | cons id' hoisted =>
      obtain ⟨heq, -⟩ := Emit.pure_eq_ok h
      cases heq
      exact Nat.add_comm _ _
  · have hitem : item.isFunction = false := by simpa using hitem
    rw [emitStatement_of_not_isFunction hitem] at h
    obtain ⟨id', s₁, -, h⟩ := Emit.bind_eq_ok h
    obtain ⟨heq, -⟩ := Emit.pure_eq_ok h
    cases heq
    rw [functionCount, List.countP_cons_of_neg (by simp [hitem]), List.countP_nil, Nat.zero_add]

theorem emitStatements_eq_none {items : List Node} {hoisted : List ValueId} {s s' : Emission}
    {last : Option (ValueId × Bool)} (h : emitStatements builtin hoisted items s = .ok (last, s')) :
    last = none ↔ items = [] := by
  induction items generalizing s hoisted with
  | nil =>
    rw [emitStatements] at h
    obtain ⟨rfl, -⟩ := Emit.pure_eq_ok h
    simp
  | cons item items ih =>
    cases items with
    | nil =>
      rw [emitStatements] at h
      obtain ⟨x, s₁, -, h⟩ := Emit.bind_eq_ok h
      obtain ⟨rfl, -⟩ := Emit.pure_eq_ok h
      simp
    | cons item' items =>
      rw [emitStatements] at h
      · obtain ⟨x, s₁, -, h⟩ := Emit.bind_eq_ok h
        simpa using ih h
      · simp

/-- Compiling the statements of a scope, if it is known what compiling them decides. -/
theorem Decides.program {items : List Node} (h : ∀ {hoisted : List ValueId},
      functionCount items ≤ hoisted.length → Decides (emitStatements builtin hoisted items)
        (AllScoped builtin .statement items) (bindsAll items)) (span : Span) :
    Decides (program builtin span items) (fun own outer =>
      ((functionNames items).Nodup ∧ own.Disjoint (functionNames items)) ∧
        AllScoped builtin .statement items (own ++ functionNames items) outer ∧
        (items = [] → (builtin "unit").isSome)) (functionNames items ++ bindsAll items) := by
  have h := (Decides.hoist items).bind fun {_ hoisted _} hh =>
    (h (hoist_length hh).ge).bind fun {_ last _} hl =>
      (Decides.conclude builtin span last).congr (imp_congr_left (emitStatements_eq_none hl).symm)
  rwa [List.append_nil] at h

/-- Compiling statements for which there are numbers, if they need them. -/
theorem emitStatements_decides :
    (∀ (item : Node) {hoisted : List ValueId}, functionCount [item] ≤ hoisted.length →
      Decides (emitStatement builtin hoisted item) (item.Scoped builtin .statement) item.binds) ∧
    ∀ (items : List Node) {hoisted : List ValueId}, functionCount items ≤ hoisted.length →
      Decides (emitStatements builtin hoisted items) (AllScoped builtin .statement items)
        (bindsAll items) := by
  refine statement_induct ?function ?expression ?nil ?single ?cons
  case function =>
    intro span name params body ih hoisted hh
    have hne : hoisted ≠ [] := by
      rintro rfl
      exact Nat.not_succ_le_zero _ hh
    have hx := ((Decides.program ih body.span).function params span).bind_total
      fun _ => Decides.takeNumber span hne
    rw [emitStatement_function]
    refine Decides.congr (by simpa only [Node.program, bind_assoc, binds] using hx)
      fun {own outer} => ?_
    rw [scoped_function, scoped_body, and_iff_right (by simp)]
  case expression =>
    intro item hitem hoisted _
    rw [emitStatement_of_not_isFunction hitem]
    exact ((emit_decides item).bind_total fun _ => .pure _).congr (scoped_statement hitem)
  case nil => exact fun _ => (Decides.pure none).congr (iff_true_intro allScoped_nil)
  case single =>
    intro item ih hoisted hh
    rw [emitStatements]
    refine ((ih hh).bind fun {_ x _} _ => .pure (some (x.1, item.isIdent))).congr ?_
    exact allScoped_cons.trans (and_congr_right' (iff_true_intro allScoped_nil))
  case cons =>
    intro item item' items ih ihs hoisted hh
    rw [functionCount_cons] at hh
    rw [emitStatements.eq_3 builtin _ _ _ (by simp)]
    exact ((ih (Nat.le_of_add_right_le hh)).bind fun {_ x _} hx =>
      ihs (by have := emitStatement_hoisted hx; omega)).congr allScoped_cons

/-- Compiling the statements of a scope. -/
theorem program_decides (span : Span) (items : List Node) :
    Decides (program builtin span items) (fun own outer =>
      ((functionNames items).Nodup ∧ own.Disjoint (functionNames items)) ∧
        AllScoped builtin .statement items (own ++ functionNames items) outer ∧
        (items = [] → (builtin "unit").isSome)) (functionNames items ++ bindsAll items) :=
  Decides.program (emitStatements_decides.2 items) span

/-! ## Programs -/

theorem wellScoped_iff {root : Node} : root.WellScoped builtin ↔
    (∃ span items, root = .list span items) ∧ (functionNames root.bodyItems).Nodup ∧
      root.Scoped builtin .body (functionNames root.bodyItems) [] := by
  unfold Scoped
  rw [forall_fine_iff]
  constructor
  · rintro ⟨hlist, hnames, hdistinct, hwithin, hplaced, hfields, hunit⟩
    obtain ⟨hf, hb, hd⟩ := List.nodup_append'.mp hdistinct
    exact ⟨hlist, hf, hnames, hb, hd, hplaced, hwithin, hfields, hunit⟩
  · rintro ⟨hlist, hf, hnames, hb, hd, hplaced, hwithin, hfields, hunit⟩
    exact ⟨hlist, hnames, List.nodup_append'.mpr ⟨hf, hb, hd⟩, hwithin, hplaced, hfields, hunit⟩

theorem program_exists_iff {span : Span} {items : List Node} :
    (∃ id s, program builtin span items ⟨.startingAt 0, [], .empty, #[]⟩ = .ok (id, s)) ↔
      (list span items).WellScoped builtin := by
  have hd : Decides (program builtin span items) _ _ := program_decides span items
  have hs : Emission.Sees ⟨.startingAt 0, [], .empty, #[]⟩ [] [] :=
    ⟨by simp [Scope.startingAt, Scope.binds], by simp⟩
  have hok := Iff.intro (hd.exists_ok hs) fun h => (hd.ok hs h.choose_spec.choose_spec).1
  rw [← hok, and_iff_left (List.disjoint_nil_left _), wellScoped_iff, scoped_body]
  exact (and_iff_right ⟨span, items, rfl⟩).symm

/-- **What compiles is well scoped** and has no more constants than there are positions. -/
theorem compile_isOk_iff (builtin : String → Option ValueId) (root : Node) :
    (∃ code, root.compile builtin = .ok code) ↔
      root.WellScoped builtin ∧ root.constants.eraseDups.length ≤ 2 ^ 32 := by
  constructor
  · rintro ⟨code, he⟩
    have hf := fit_of_compile he
    obtain ⟨span, items, id, s, constants, rfl, hp, -, -⟩ := compile_eq_ok he
    exact ⟨program_exists_iff.mp ⟨id, s, hp⟩, hf⟩
  · rintro ⟨hw, hf⟩
    obtain ⟨span, items, rfl⟩ := hw.isList
    obtain ⟨id, s, hp⟩ := program_exists_iff.mpr hw
    have hl : s.pool.layout = .ok (constantsAll items).eraseDups := by
      rw [(program_pool hp).pool]
      exact Pool.layout_ofConstants hf
    exact ⟨_, compile_list hp hl⟩

end Node

end Dataflow
