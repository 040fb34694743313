import Dataflow.Proofs.Compile.Statements

/-!
# Compiling with more built-in values

A tree that compiles compiles to the same unit when more names are built in: names that the program
defines come first, and built-in names are looked up one by one.

* `Emit.Le`: one way of compiling succeeds where another one does, with the same result;
* `Node.emit_le`, `Node.emitStatements_le`: expressions and statements;
* **`Node.compile_le`**: programs.
-/

namespace Dataflow

namespace Emit

variable {α β : Type}

/-- Where `x` succeeds, `y` does so with the same result. -/
def Le (x y : Emit α) : Prop := ∀ ⦃s r⦄, x s = .ok r → y s = .ok r

theorem Le.refl (x : Emit α) : Le x x := fun _ _ h => h

theorem Le.bind {x y : Emit α} {f g : α → Emit β} (hxy : Le x y) (hfg : ∀ a, Le (f a) (g a)) :
    Le (x >>= f) (y >>= g) := by
  intro s r h
  obtain ⟨a, s₁, hx, hf⟩ := bind_eq_ok h
  rw [bind_ok (hxy hx) g]
  exact hfg a hf

variable {builtin builtin' : String → Option ValueId}
  (hb : ∀ {name id}, builtin name = some id → builtin' name = some id)

include hb

theorem resolve_le (name : String) (span : Span) :
    Le (resolve builtin name span) (resolve builtin' name span) := by
  refine (Le.refl _).bind fun s => ?_
  split
  · exact .refl _
  · cases hn : builtin name with
    | none => exact fun _ _ h => absurd h fail_ne_ok
    | some id =>
      rw [hb hn]
      exact .refl _

theorem conclude_le (span : Span) (last : Option (ValueId × Bool)) :
    Le (conclude builtin span last) (conclude builtin' span last) := by
  cases last with
  | some x => exact .refl _
  | none =>
    unfold conclude
    cases hn : builtin "unit" with
    | none => exact fun _ _ h => absurd h fail_ne_ok
    | some id =>
      simp only [hb hn]
      exact .refl _

end Emit

namespace Node

variable {builtin builtin' : String → Option ValueId}

mutual

theorem emit_le (hb : ∀ {name id}, builtin name = some id → builtin' name = some id)
    (node : Node) : Emit.Le (emit builtin node) (emit builtin' node) := by
  cases node with
  | literal span l =>
    simp only [emit]
    exact .refl _
  | ident span name =>
    simp only [emit]
    exact Emit.resolve_le hb name span
  | assign span names value =>
    simp only [emit]
    exact (emit_le hb value).bind fun _ => .refl _
  | call span callee args =>
    simp only [emit]
    exact (emit_le hb callee).bind fun _ => (emitArgs_le hb args).bind fun _ => .refl _
  | select span value field form =>
    simp only [emit]
    exact (emit_le hb value).bind fun _ => .refl _
  | function span name params body =>
    simp only [emit]
    exact .refl _
  | list span items =>
    simp only [emit]
    exact (emitItems_le hb items).bind fun last => Emit.conclude_le hb span last

theorem emitArgs_le (hb : ∀ {name id}, builtin name = some id → builtin' name = some id)
    (args : List Node) : Emit.Le (emitArgs builtin args) (emitArgs builtin' args) := by
  cases args with
  | nil =>
    simp only [emitArgs]
    exact .refl _
  | cons arg args =>
    simp only [emitArgs]
    exact (emit_le hb arg).bind fun _ => (emitArgs_le hb args).bind fun _ => .refl _

theorem emitItems_le (hb : ∀ {name id}, builtin name = some id → builtin' name = some id)
    (items : List Node) : Emit.Le (emitItems builtin items) (emitItems builtin' items) := by
  match items with
  | [] =>
    simp only [emitItems]
    exact .refl _
  | [item] =>
    simp only [emitItems]
    exact (emit_le hb item).bind fun _ => .refl _
  | item :: item' :: items =>
    rw [emitItems.eq_3 builtin _ _ (by simp), emitItems.eq_3 builtin' _ _ (by simp)]
    exact (emit_le hb item).bind fun _ => emitItems_le hb (item' :: items)

end

/-- Statements are compiled to the same, and with the same numbers left. -/
theorem emitStatements_le (hb : ∀ {name id}, builtin name = some id → builtin' name = some id) :
    (∀ (item : Node) (hoisted : List ValueId),
      Emit.Le (emitStatement builtin hoisted item) (emitStatement builtin' hoisted item)) ∧
    ∀ (items : List Node) (hoisted : List ValueId),
      Emit.Le (emitStatements builtin hoisted items) (emitStatements builtin' hoisted items) := by
  refine statement_induct ?function ?expression ?nil ?single ?cons
  case function =>
    intro span name params body ih hoisted
    rw [emitStatement_function, emitStatement_function]
    refine (Emit.Le.refl _).bind fun _ => (Emit.Le.refl _).bind fun inner => ?_
    refine (ih inner).bind fun last => ?_
    exact (Emit.conclude_le hb body.span last).bind fun _ => .refl _
  case expression =>
    intro item hitem hoisted
    rw [emitStatement_of_not_isFunction hitem, emitStatement_of_not_isFunction hitem]
    exact (emit_le hb item).bind fun _ => .refl _
  case nil =>
    intro hoisted
    simp only [emitStatements]
    exact .refl _
  case single =>
    intro item ih hoisted
    simp only [emitStatements]
    exact (ih hoisted).bind fun _ => .refl _
  case cons =>
    intro item item' items ih ihs hoisted
    rw [emitStatements.eq_3 builtin _ _ _ (by simp), emitStatements.eq_3 builtin' _ _ _ (by simp)]
    exact (ih hoisted).bind fun x => ihs x.2

/-- **A tree that compiles compiles to the same unit when more names are built in.** -/
theorem compile_le (hb : ∀ {name id}, builtin name = some id → builtin' name = some id)
    {root : Node} {code : Code} (hc : root.compile builtin = .ok code) :
    root.compile builtin' = .ok code := by
  obtain ⟨span, items, id, s, constants, rfl, hp, hl, rfl⟩ := compile_eq_ok hc
  have hle : Emit.Le (program builtin span items) (program builtin' span items) :=
    (Emit.Le.refl _).bind fun hoisted => ((emitStatements_le hb).2 items hoisted).bind fun last =>
      Emit.conclude_le hb span last
  exact compile_list (hle hp) hl

end Node

end Dataflow
