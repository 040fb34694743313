import Dataflow.Proofs.Source.Printer

/-!
# Flat expressions

An expression that is printed with as few parentheses as possible is a flat list of operands and
operators, and climbing the strengths of the operators gives its tree back.

* `Item.bare`: an item without its spans;
* `Node.flat`: the items of an expression;
* `Item.climbs_bare`: spans do not matter;
* **`Node.climbs_flat`**: climbing the items of an expression gives the expression.
-/

namespace Dataflow

/-! ## Expressions one by one -/

/-- What holds of the parts of an expression, whatever they are, holds of expressions. -/
theorem Node.Expression.rec_on {motive : (n : Node) → n.Expression → Prop}
    (binary : ∀ span place left op right, (binaryRule? op).isSome → ∀ hl hr h, motive left hl →
      motive right hr → motive (.call span (.select place left op .binary) [right]) h)
    (unary : ∀ span place value op, op = "-" ∨ op = "!" → ∀ hv h, motive value hv →
      motive (.call span (.select place value op .unary) []) h)
    (call : ∀ span callee args,
      (∀ place left op right, callee = .select place left op .binary → args = [right] → False) →
      (∀ place value op, callee = .select place value op .unary → args = [] → False) →
      Expressions args → ∀ hc h, motive callee hc → (∀ a ∈ args, ∃ ha, motive a ha) →
      motive (.call span callee args) h)
    (field : ∀ span value name, isName name → ∀ hv h, motive value hv →
      motive (.select span value name .member) h)
    (ident : ∀ span name, isName name → ∀ h, motive (.ident span name) h)
    (int : ∀ span i, 0 ≤ i → ∀ h, motive (.literal span (.int i)) h)
    (str : ∀ span s, '\r' ∉ s.toList → ∀ h, motive (.literal span (.str s)) h)
    {n : Node} (h : n.Expression) : motive n h := by
  refine Node.Expression.induct (fun n => ∀ h, motive n h)
    (fun ns => Expressions ns → ∀ n ∈ ns, ∃ h, motive n h)
    ?_ ?_ ?_ ?_ ?_ ?_ ?_ ?_ ?_ ?_ ?_ ?_ ?_ ?_ n h
  · intro span place left op right ihl ihr h
    have hp := h
    rw [Expression] at hp
    exact binary span place left op right hp.1 _ _ _ (ihl hp.2.1) (ihr hp.2.2)
  · intro span place value op ih h
    have hp := h
    rw [Expression] at hp
    exact unary span place value op hp.1 _ _ (ih hp.2)
  · intro span callee args hb hu ihc iha h
    have hp := h
    rw [Expression.eq_3 _ _ _ hb hu] at hp
    exact call span callee args hb hu hp.2 _ _ (ihc hp.1) (iha hp.2)
  · intro span value name ih h
    have hp := h
    rw [Expression] at hp
    exact field span value name hp.1 _ _ (ih hp.2)
  · intro span name h
    exact ident span name (by rwa [Expression] at h) h
  · intro span i h
    exact int span i (by rwa [Expression] at h) h
  · intro span s h
    exact str span s (by rwa [Expression] at h) h
  · intro span x h
    rw [Expression] at h
    exact h.elim
  · intro span value name form hform h
    cases form with
    | member => exact (hform rfl).elim
    | binary => simp [Expression] at h
    | unary => simp [Expression] at h
  · intro span items h
    rw [Expression] at h
    exact h.elim
  · intro span names value h
    rw [Expression] at h
    exact h.elim
  · intro span name params body h
    rw [Expression] at h
    exact h.elim
  · intro _ n hn
    cases hn
  · intro n ns ihn ihns h m hm
    rw [Expressions] at h
    obtain rfl | hm := List.mem_cons.mp hm
    · exact ⟨h.1, ihn h.1⟩
    · exact ihns h.2 m hm

namespace Item

/-- An item without its spans. -/
def bare : Item → Item
  | operand node => .operand node.bare
  | unary op _ => .unary op .none
  | binary op strength _ => .binary op strength .none
  | call args _ => .call (Node.allBare args) 0
  | field name _ => .field name 0

/-- An operand with all that binds to it more tightly than `floor`, and what is left. -/
def climbs (floor : Nat) (items : List Item) : Option (Node × List Item) :=
  (climb floor items).map fun x => (x.1, x.2.1)

/-- A tree with all that binds to it more tightly than `floor`, and what is left. -/
def grows (floor : Nat) (left : Node) (items : List Item) : Option (Node × List Item) :=
  (extend floor left items).map fun x => (x.1, x.2.1)

section Equations

variable (floor : Nat) (left : Node) (rest : List Item)

theorem climbs_operand (node : Node) : climbs floor (operand node :: rest) = grows floor node rest := by
  rw [climbs, climb, grows]
  cases extend floor node rest <;> rfl

theorem climbs_unary (op : String) (span : Span) : climbs floor (unary op span :: rest) =
    (climbs (unaryStrength - 1) rest).bind fun x => grows floor (.ofUnary op span x.1) x.2 := by
  rw [climbs, climb, climbs]
  cases hc : climb (unaryStrength - 1) rest with
  | none => rfl
  | some x =>
    obtain ⟨inner, rest₁, h₁⟩ := x
    simp only [Option.map_some, Option.bind_some, grows]
    cases extend floor (Node.ofUnary op span inner) rest₁ <;> rfl

theorem climbs_nil : climbs floor [] = none := by
  simp [climbs, climb]

theorem climbs_binary (op : String) (strength : Nat) (span : Span) :
    climbs floor (binary op strength span :: rest) = none := by
  simp [climbs, climb]

theorem climbs_call (args : List Node) (stop : Nat) :
    climbs floor (call args stop :: rest) = none := by
  simp [climbs, climb]

theorem climbs_field (name : String) (stop : Nat) :
    climbs floor (field name stop :: rest) = none := by
  simp [climbs, climb]

theorem grows_operand (node : Node) : grows floor left (operand node :: rest) = none := by
  simp [grows, extend]

theorem grows_unary (op : String) (span : Span) :
    grows floor left (unary op span :: rest) = none := by
  simp [grows, extend]

theorem grows_nil : grows floor left [] = some (left, []) := by
  rw [grows, extend]
  rfl

theorem grows_binary (op : String) (strength : Nat) (span : Span) :
    grows floor left (binary op strength span :: rest) =
      if floor < strength then
        (climbs strength rest).bind fun x => grows floor (left.ofBinary op span x.1) x.2
      else some (left, binary op strength span :: rest) := by
  rw [grows, extend]
  split
  · rw [climbs]
    cases climb strength rest with
    | none => rfl
    | some x =>
      obtain ⟨right, rest₁, h₁⟩ := x
      simp only [Option.map_some, Option.bind_some, grows]
      cases extend floor (left.ofBinary op span right) rest₁ <;> rfl
  · rfl

theorem grows_call (args : List Node) (stop : Nat) :
    grows floor left (call args stop :: rest) = grows floor (left.ofCall args stop) rest := by
  rw [grows, extend, grows]
  cases extend floor (left.ofCall args stop) rest <;> rfl

theorem grows_field (name : String) (stop : Nat) :
    grows floor left (field name stop :: rest) = grows floor (left.ofField name stop) rest := by
  rw [grows, extend, grows]
  cases extend floor (left.ofField name stop) rest <;> rfl

end Equations

theorem length_climbs {floor : Nat} {items rest : List Item} {node : Node}
    (h : climbs floor items = some (node, rest)) : rest.length < items.length := by
  rw [climbs, Option.map_eq_some_iff] at h
  obtain ⟨⟨n, r, hr⟩, -, he⟩ := h
  cases he
  exact hr

end Item

/-! ## Spans do not matter -/

namespace Node

theorem span_bare (n : Node) : n.bare.span = .none := by
  cases n <;> rw [bare, span]

theorem bare_ofUnary (op : String) (place : Span) (operand : Node) :
    (ofUnary op place operand).bare = ofUnary op .none operand.bare := by
  rw [ofUnary, ofUnary, bare, bare, span_bare, allBare]
  rfl

theorem bare_ofBinary (left : Node) (op : String) (place : Span) (right : Node) :
    (left.ofBinary op place right).bare = left.bare.ofBinary op .none right.bare := by
  rw [ofBinary, ofBinary, bare, bare, span_bare, span_bare, allBare, allBare]
  rfl

theorem bare_ofCall (callee : Node) (args : List Node) (stop : Nat) :
    (callee.ofCall args stop).bare = callee.bare.ofCall (allBare args) 0 := by
  rw [ofCall, ofCall, bare, span_bare]
  rfl

theorem bare_ofField (value : Node) (field : String) (stop : Nat) :
    (value.ofField field stop).bare = value.bare.ofField field 0 := by
  rw [ofField, ofField, bare, span_bare]
  rfl

end Node

namespace Item

/-- A tree and what is left, without spans. -/
def bareBoth (x : Node × List Item) : Node × List Item := (x.1.bare, x.2.map bare)

/-- Spans do not matter for the shape of a tree. -/
theorem climbs_grows_bare (k : Nat) : ∀ items : List Item, items.length = k →
    (∀ floor, climbs floor (items.map bare) = (climbs floor items).map bareBoth) ∧
    ∀ floor left, grows floor left.bare (items.map bare) = (grows floor left items).map bareBoth := by
  induction k using Nat.strongRecOn with
  | ind k ih =>
    intro items hk
    -- what climbing leaves is shorter, so the hypothesis applies to what follows it
    have climbed {floor : Nat} {rest : List Item} (hrest : rest.length < k)
        (f f' : Node → List Item → Option (Node × List Item))
        (hf : ∀ node items, items.length < k →
          f' node.bare (items.map bare) = (f node items).map bareBoth) :
        (climbs floor (rest.map bare)).bind (fun x => f' x.1 x.2) =
          ((climbs floor rest).bind fun x => f x.1 x.2).map bareBoth := by
      rw [(ih rest.length hrest rest rfl).1]
      cases hc : climbs floor rest with
      | none => rfl
      | some x =>
        obtain ⟨node, rest'⟩ := x
        exact hf node rest' (Nat.lt_trans (length_climbs hc) hrest)
    cases items with
    | nil => exact ⟨fun floor => by rw [List.map_nil, climbs_nil]; rfl,
        fun floor left => by rw [List.map_nil, grows_nil, grows_nil]; rfl⟩
    | cons item rest =>
      have hlt : rest.length < k := hk ▸ Nat.lt_succ_self _
      have ihgrows := (ih rest.length hlt rest rfl).2
      rw [List.map_cons]
      cases item with
      | operand node =>
        refine ⟨fun floor => ?_, fun floor left => ?_⟩
        · rw [bare, climbs_operand, climbs_operand]
          exact ihgrows floor node
        · rw [bare, grows_operand, grows_operand]
          rfl
      | unary op span =>
        refine ⟨fun floor => ?_, fun floor left => ?_⟩
        · rw [bare, climbs_unary, climbs_unary]
          refine climbed hlt (fun node items => grows floor (.ofUnary op span node) items)
            (fun node items => grows floor (.ofUnary op .none node) items) fun node items hl => ?_
          rw [← Node.bare_ofUnary op span]
          exact (ih items.length hl items rfl).2 floor _
        · rw [bare, grows_unary, grows_unary]
          rfl
      | binary op strength span =>
        refine ⟨fun floor => ?_, fun floor left => ?_⟩
        · rw [bare, climbs_binary, climbs_binary]
          rfl
        · rw [bare, grows_binary, grows_binary]
          split
          · refine climbed hlt (fun node items => grows floor (left.ofBinary op span node) items)
              (fun node items => grows floor (left.bare.ofBinary op .none node) items)
              fun node items hl => ?_
            rw [← Node.bare_ofBinary left op span]
            exact (ih items.length hl items rfl).2 floor _
          · rfl
      | call args stop =>
        refine ⟨fun floor => ?_, fun floor left => ?_⟩
        · rw [bare, climbs_call, climbs_call]
          rfl
        · rw [bare, grows_call, grows_call, ← Node.bare_ofCall left args stop]
          exact ihgrows floor _
      | field name stop =>
        refine ⟨fun floor => ?_, fun floor left => ?_⟩
        · rw [bare, climbs_field, climbs_field]
          rfl
        · rw [bare, grows_field, grows_field, ← Node.bare_ofField left name stop]
          exact ihgrows floor _

end Item

/-! ## The items of an expression -/

/-- Whether a node is read without operators, calls and selects. -/
def Node.isAtom : Node → Bool
  | ident .. | literal .. => true
  | _ => false

/-- The items of an expression where only operators of the given strength or above may stand
without parentheses. -/
def Node.flat (level : Nat) : Node → List Item
  | call span (select place left op .binary) [right] =>
    if strengthOf op < level then [.operand (call span (select place left op .binary) [right])]
    else flat (strengthOf op) left ++ .binary op (strengthOf op) .none :: flat (strengthOf op + 1) right
  | call span (select place value op .unary) [] =>
    if unaryStrength < level then [.operand (call span (select place value op .unary) [])]
    else .unary op .none :: flat unaryStrength value
  | call _ callee args => flat suffixStrength callee ++ [.call args 0]
  | select _ value field _ => flat suffixStrength value ++ [.field field 0]
  | n => [.operand n]

/-- The tokens of an item. -/
def Item.tokens : Item → List (List Char)
  | operand node => enclose (!node.isAtom) (node.tokens 0)
  | unary op _ => [op.toList]
  | binary op _ _ => [op.toList]
  | call args _ => ['('] :: (commas (Node.allTokens args) ++ [[')']])
  | field name _ => [['.'], name.toList]

/-! ## Climbing the items of an expression -/

namespace Item

/-- Whether items can follow an expression at a level: there are none, or the first is a binary
operator that does not bind more tightly. -/
def Ends (level : Nat) (rest : List Item) : Prop :=
  level = suffixStrength ∨ rest = [] ∨
    ∃ op strength span tail, rest = binary op strength span :: tail ∧ strength ≤ level ∧
      strength < unaryStrength

theorem Ends.mono {level level' : Nat} {rest : List Item} (h : Ends level rest)
    (hl : level ≤ level') (hs : level < suffixStrength) : Ends level' rest := by
  obtain h | h | ⟨op, strength, span, tail, hr, h, hu⟩ := h
  · omega
  · exact .inr (.inl h)
  · exact .inr (.inr ⟨op, strength, span, tail, hr, Nat.le_trans h hl, hu⟩)

/-- An expression does not grow if nothing that follows binds more tightly. -/
theorem Ends.grows {level floor : Nat} {rest : List Item} (h : Ends level rest)
    (hs : level < suffixStrength) (hf : level ≤ floor ∨ floor = unaryStrength - 1) (node : Node) :
    grows floor node (rest.map bare) = some (node, rest.map bare) := by
  obtain h | rfl | ⟨op, strength, span, tail, rfl, h, hu⟩ := h
  · omega
  · exact grows_nil floor node
  · rw [List.map_cons, bare, grows_binary, if_neg (by omega)]

end Item

theorem strengthOf_pos {op : String} (h : (binaryRule? op).isSome) :
    0 < strengthOf op ∧ strengthOf op < unaryStrength := by
  obtain ⟨r, hr⟩ := Option.isSome_iff_exists.mp h
  have hall : ∀ r ∈ Rule.binaries, 0 < r.strength ∧ r.strength < unaryStrength := by decide
  rw [strengthOf, hr]
  exact hall r (List.mem_of_find?_eq_some hr)

section Flat

variable (level : Nat) (span place : Span)

theorem Node.flat_call {callee : Node} {args : List Node}
    (hb : ∀ place left op right, callee = .select place left op .binary → args = [right] → False)
    (hu : ∀ place value op, callee = .select place value op .unary → args = [] → False) :
    (call span callee args).flat level = callee.flat suffixStrength ++ [.call args 0] := by
  rw [flat] <;> assumption

theorem Node.flat_atom {n : Node} (h : n.isAtom = true) : n.flat level = [.operand n] := by
  cases n with
  | ident span name | literal span value =>
    rw [flat] <;> intros <;> contradiction
  | list | assign | call | select | function => cases h

end Flat

/-- **Climbing the items of an expression gives the expression**, and goes on from it. -/
theorem Node.climbs_flat {n : Node} (h : n.Expression) : ∀ {level floor : Nat} {rest : List Item},
    level ≤ suffixStrength → floor < max level 1 → Item.Ends level rest →
    Item.climbs floor ((n.flat level ++ rest).map Item.bare) =
      Item.grows floor n.bare (rest.map Item.bare) := by
  -- an operand of its own is climbed at once
  have single {floor : Nat} {rest : List Item} (n : Node) :
      Item.climbs floor (([Item.operand n] ++ rest).map Item.bare) =
        Item.grows floor n.bare (rest.map Item.bare) := Item.climbs_operand _ _ _
  induction h using Node.Expression.rec_on with
  | binary span place left op right hop hl hr h ihl ihr =>
    intro level floor rest hlevel hfloor hrest
    obtain ⟨hpos, hlt⟩ := strengthOf_pos hop
    have hunary : unaryStrength < suffixStrength := Nat.lt_succ_self _
    rw [flat]
    split
    · exact single _
    · rename_i hs
      have hright : Item.climbs (strengthOf op)
          ((right.flat (strengthOf op + 1) ++ rest).map Item.bare) =
            some (right.bare, rest.map Item.bare) := by
        rw [ihr (by omega) (by omega) (hrest.mono (by omega) (by omega))]
        exact hrest.grows (by omega) (.inl (by omega)) _
      have hends : Item.Ends (strengthOf op)
          (.binary op (strengthOf op) .none :: (right.flat (strengthOf op + 1) ++ rest)) :=
        .inr (.inr ⟨op, _, _, _, rfl, Nat.le_refl _, hlt⟩)
      rw [List.append_assoc, List.cons_append, ihl (by omega) (by omega) hends, List.map_cons,
        Item.bare, Item.grows_binary, if_pos (by omega), hright, Option.bind_some,
        ← bare_ofBinary left op place right]
      rw [ofBinary, bare, bare]
  | unary span place value op hop hv h ih =>
    intro level floor rest hlevel hfloor hrest
    have hunary : unaryStrength < suffixStrength := Nat.lt_succ_self _
    rw [flat]
    split
    · exact single _
    · rename_i hs
      have hvalue : Item.climbs (unaryStrength - 1)
          ((value.flat unaryStrength ++ rest).map Item.bare) =
            some (value.bare, rest.map Item.bare) := by
        rw [ih (by omega) (by rw [unaryStrength]; decide) (hrest.mono (by omega) (by omega))]
        exact hrest.grows (by omega) (.inr rfl) _
      rw [List.cons_append, List.map_cons, Item.bare, Item.climbs_unary, hvalue, Option.bind_some,
        ← bare_ofUnary op place value]
      rw [ofUnary, bare, bare]
  | call span callee args hb hu hargs hc h ih _ =>
    intro level floor rest hlevel hfloor hrest
    rw [flat_call level span hb hu, List.append_assoc, ih (Nat.le_refl _) (by omega) (.inl rfl)]
    rw [List.singleton_append, List.map_cons, Item.bare, Item.grows_call, ← bare_ofCall callee args 0]
    rw [ofCall, bare, bare]
  | field span value name hname hv h ih =>
    intro level floor rest hlevel hfloor hrest
    rw [flat, List.append_assoc, ih (Nat.le_refl _) (by omega) (.inl rfl)]
    rw [List.singleton_append, List.map_cons, Item.bare, Item.grows_field, ← bare_ofField value name 0]
    rw [ofField, bare, bare]
  | ident | int | str =>
    intro level floor rest hlevel hfloor hrest
    rw [flat_atom level rfl]
    exact single _

/-! ## The shape of flat expressions -/

namespace Item

/-- Whether an item stands before an operand. -/
def isUnary : Item → Bool
  | unary op _ => op == "-" || op == "!"
  | _ => false

/-- Whether an item stands behind an operand. -/
def isSuffix : Item → Bool
  | call .. | field .. => true
  | _ => false

/-- Operands with unary operators before them, calls and selects behind them and binary operators
between them. -/
inductive Flat : List Item → Prop where
  | one {us ss : List Item} {n : Node} (hu : ∀ u ∈ us, u.isUnary = true) (hn : n.Expression)
    (hs : ∀ s ∈ ss, s.isSuffix = true) : Flat (us ++ operand n :: ss)
  | cons {us ss items : List Item} {n : Node} {op : String} {strength : Nat} {span : Span}
    (hu : ∀ u ∈ us, u.isUnary = true) (hn : n.Expression) (hs : ∀ s ∈ ss, s.isSuffix = true)
    (hop : (binaryRule? op).isSome) (h : Flat items) :
    Flat (us ++ operand n :: ss ++ binary op strength span :: items)

namespace Flat

variable {items items' : List Item}

theorem single {n : Node} (hn : n.Expression) : Flat [operand n] :=
  @one [] [] n (by simp) hn (by simp)

theorem join (h : Flat items) (h' : Flat items') {op : String} (hop : (binaryRule? op).isSome)
    (strength : Nat) (span : Span) : Flat (items ++ binary op strength span :: items') := by
  induction h with
  | one hu hn hs => exact cons hu hn hs hop h'
  | cons hu hn hs hop' _ ih =>
    rw [List.append_assoc, List.cons_append]
    exact cons hu hn hs hop' ih

theorem before (h : Flat items) {u : Item} (hu : u.isUnary = true) : Flat (u :: items) := by
  cases h with
  | one hus hn hs => exact one (List.forall_mem_cons.mpr ⟨hu, hus⟩) hn hs
  | cons hus hn hs hop h => exact cons (List.forall_mem_cons.mpr ⟨hu, hus⟩) hn hs hop h

theorem behind (h : Flat items) {s : Item} (hs : s.isSuffix = true) : Flat (items ++ [s]) := by
  have hlast {ss : List Item} (hss : ∀ s ∈ ss, s.isSuffix = true) :
      ∀ t ∈ ss ++ [s], t.isSuffix = true := by
    intro t ht
    obtain ht | ht := List.mem_append.mp ht
    · exact hss t ht
    · rwa [List.mem_singleton.mp ht]
  induction h with
  | one hu hn hss =>
    rw [List.append_assoc, List.cons_append]
    exact one hu hn (hlast hss)
  | cons hu hn hss hop _ ih =>
    rw [List.append_assoc, List.cons_append]
    exact cons hu hn hss hop ih

end Flat

end Item

theorem Node.flat_shape {n : Node} (h : n.Expression) : ∀ level, Item.Flat (n.flat level) := by
  induction h using Node.Expression.rec_on with
  | binary span place left op right hop hl hr h ihl ihr =>
    intro level
    rw [flat]
    split
    · exact .single h
    · exact (ihl _).join (ihr _) hop _ _
  | unary span place value op hop hv h ih =>
    intro level
    rw [flat]
    split
    · exact .single h
    · exact (ih _).before (by obtain rfl | rfl := hop <;> rfl)
  | call span callee args hb hu hargs hc h ih _ =>
    intro level
    rw [flat_call level span hb hu]
    exact (ih _).behind rfl
  | field span value name hname hv h ih =>
    intro level
    rw [flat]
    exact (ih _).behind rfl
  | ident | int | str =>
    intro level
    rw [flat_atom level rfl]
    exact .single (by assumption)

/-- The tokens of an expression are those of its items. -/
theorem Node.tokens_flat {n : Node} (h : n.Expression) :
    ∀ level, n.tokens level = (n.flat level).flatMap Item.tokens := by
  induction h using Node.Expression.rec_on with
  | binary span place left op right hop hl hr h ihl ihr =>
    intro level
    rw [tokens, flat]
    by_cases hs : strengthOf op < level
    · rw [if_pos hs, decide_eq_true hs, List.flatMap_singleton, Item.tokens, tokens]
      rfl
    · rw [if_neg hs, decide_eq_false hs, ihl, ihr, List.flatMap_append, List.flatMap_cons]
      simp [enclose, Item.tokens]
  | unary span place value op hop hv h ih =>
    intro level
    rw [tokens, flat]
    by_cases hs : unaryStrength < level
    · rw [if_pos hs, decide_eq_true hs, List.flatMap_singleton, Item.tokens, tokens]
      rfl
    · rw [if_neg hs, decide_eq_false hs, ih, List.flatMap_cons]
      rfl
  | call span callee args hb hu hargs hc h ih _ =>
    intro level
    rw [tokens.eq_3 _ _ _ _ hb hu, flat_call level span hb hu, ih, List.flatMap_append]
    simp [Item.tokens]
  | field span value name hname hv h ih =>
    intro level
    rw [tokens, flat, ih, List.flatMap_append]
    rfl
  | ident | int | str =>
    intro level
    rw [flat_atom level rfl]
    simp [Item.tokens, isAtom, enclose, tokens]

end Dataflow
