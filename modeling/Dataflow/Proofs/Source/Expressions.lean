import Dataflow.Proofs.Source.Lexemes

/-!
# Expressions

The text of an expression is read up to what follows it, and the tree that is built is the
expression.

* `Follows`: what can follow an expression;
* `Item.Legible`: the text of an item is read by its pattern;
* **`reads_expression`**: the text of an expression is read.
-/

namespace Dataflow

open Grammar Pattern Rule

/-! ## Items from matches -/

/-- The matches of some items, up to spans. -/
def Gives (items : List Item) (ts : List (Tree Rule)) : Prop :=
  ∃ found, Tree.toItems ts = .ok found ∧ found.map Item.bare = items.map Item.bare

theorem Gives.nil : Gives [] [] := ⟨[], by rw [Tree.toItems]; rfl, rfl⟩

theorem Tree.toItems_append {ts ts' : List (Tree Rule)} {items items' : List Item}
    (h : toItems ts = .ok items) (h' : toItems ts' = .ok items') :
    toItems (ts ++ ts') = .ok (items ++ items') := by
  induction ts generalizing items with
  | nil =>
    rw [toItems] at h
    cases h
    exact h'
  | cons t ts ih =>
    rw [toItems] at h
    rw [List.cons_append, toItems]
    cases ht : toItem t with
    | error e =>
      rw [ht] at h
      cases h
    | ok i =>
      rw [ht] at h
      cases hts : toItems ts with
      | error e =>
        rw [hts] at h
        cases h
      | ok is =>
        rw [hts] at h
        cases h
        rw [ih hts]
        rfl

theorem Gives.append {items items' : List Item} {ts ts' : List (Tree Rule)} (h : Gives items ts)
    (h' : Gives items' ts') : Gives (items ++ items') (ts ++ ts') := by
  obtain ⟨found, hf, hb⟩ := h
  obtain ⟨found', hf', hb'⟩ := h'
  exact ⟨found ++ found', Tree.toItems_append hf hf', by rw [List.map_append, List.map_append, hb, hb']⟩

/-- One match gives one item. -/
theorem Gives.one {t : Tree Rule} {i j : Item} (h : Tree.toItem t = .ok j) (hb : j.bare = i.bare) :
    Gives [i] [t] := by
  refine ⟨[j], ?_, by rw [List.map_singleton, List.map_singleton, hb]⟩
  rw [Tree.toItems, h, Tree.toItems]
  rfl

/-! ## Nodes from matches -/

/-- The matches of some nodes, up to spans. -/
def Makes (nodes : List Node) (ts : List (Tree Rule)) : Prop :=
  ∃ found, Tree.toNodes ts = .ok found ∧ Node.allBare found = Node.allBare nodes

theorem Node.allBare_append (ns ms : List Node) : allBare (ns ++ ms) = allBare ns ++ allBare ms := by
  induction ns with
  | nil => rw [List.nil_append, allBare, List.nil_append]
  | cons n ns ih => rw [List.cons_append, allBare, allBare, ih, List.cons_append]

theorem Makes.nil : Makes [] [] := ⟨[], by rw [Tree.toNodes]; rfl, rfl⟩

theorem Tree.toNodes_append {ts ts' : List (Tree Rule)} {nodes nodes' : List Node}
    (h : toNodes ts = .ok nodes) (h' : toNodes ts' = .ok nodes') :
    toNodes (ts ++ ts') = .ok (nodes ++ nodes') := by
  induction ts generalizing nodes with
  | nil =>
    rw [toNodes] at h
    cases h
    exact h'
  | cons t ts ih =>
    by_cases hfinish : ∃ span inner, t = .node .finish span inner
    · obtain ⟨span, inner, rfl⟩ := hfinish
      rw [toNodes] at h
      rw [List.cons_append, toNodes]
      exact ih h
    · have hne : ∀ span inner, t = .node .finish span inner → False :=
        fun span inner heq => hfinish ⟨span, inner, heq⟩
      rw [toNodes.eq_3 _ _ hne] at h
      rw [List.cons_append, toNodes.eq_3 _ _ hne]
      cases ht : toNode t with
      | error e =>
        rw [ht] at h
        cases h
      | ok n =>
        rw [ht] at h
        cases hts : toNodes ts with
        | error e =>
          rw [hts] at h
          cases h
        | ok ns =>
          rw [hts] at h
          cases h
          rw [ih hts]
          rfl

theorem Makes.append {nodes nodes' : List Node} {ts ts' : List (Tree Rule)} (h : Makes nodes ts)
    (h' : Makes nodes' ts') : Makes (nodes ++ nodes') (ts ++ ts') := by
  obtain ⟨found, hf, hb⟩ := h
  obtain ⟨found', hf', hb'⟩ := h'
  exact ⟨found ++ found', Tree.toNodes_append hf hf',
    by rw [Node.allBare_append, Node.allBare_append, hb, hb']⟩

/-- The match of an expression, up to spans. -/
def Shows (e : Node) (ts : List (Tree Rule)) : Prop :=
  ∃ span ts' n, ts = [.node .expression span ts'] ∧
    (Tree.toItems ts' >>= expressionOf span) = .ok n ∧ n.bare = e.bare

theorem Shows.toNodes {e : Node} {ts : List (Tree Rule)} (h : Shows e ts) :
    ∃ n, Tree.toNodes ts = .ok [n] ∧ n.bare = e.bare := by
  obtain ⟨span, ts', n, rfl, hn, hb⟩ := h
  refine ⟨n, ?_, hb⟩
  rw [Tree.toNodes.eq_3 _ _ (by simp), Tree.toNode, hn, Tree.toNodes]
  rfl

theorem Shows.makes {e : Node} {ts : List (Tree Rule)} (h : Shows e ts) : Makes [e] ts := by
  obtain ⟨n, hn, hb⟩ := h.toNodes
  exact ⟨[n], hn, by simp only [Node.allBare, hb]⟩

/-- The items of an expression give the expression. -/
theorem Gives.shows {e : Node} (he : e.Expression) {ts : List (Tree Rule)} (h : Gives (e.flat 0) ts)
    (span : Span) : Shows e [.node .expression span ts] := by
  obtain ⟨found, hf, hb⟩ := h
  have hclimb : Item.climbs 0 (found.map Item.bare) = some (e.bare, []) := by
    have := @Node.climbs_flat e he 0 0 [] (Nat.zero_le _) (by decide) (.inr (.inl rfl))
    rw [hb]
    simpa [Item.grows_nil] using this
  rw [(Item.climbs_grows_bare _ found rfl).1, Option.map_eq_some_iff] at hclimb
  obtain ⟨⟨n, rest⟩, hn, hbare⟩ := hclimb
  refine ⟨span, ts, n, rfl, ?_, congrArg Prod.fst hbare⟩
  have htree : Item.tree? found = some n := by
    rw [Item.climbs, Option.map_eq_some_iff] at hn
    obtain ⟨x, hx, he⟩ := hn
    rw [Item.tree?, hx]
    exact congrArg (some ·.1) he
  rw [hf]
  show expressionOf span found = _
  rw [expressionOf, htree]

/-! ## What follows -/

/-- What can follow an expression. -/
def Follows (r : List Char) : Prop := ∀ x ∈ r.head?, x ∈ [')', ',', '\x7d', '\n']

/-- What is refused by every character that can follow an expression, and by the end. -/
theorem Follows.refuses {r : List Char} (h : Follows r) {p : Pattern Rule} (n : Nat)
    (hp : ∀ x ∈ [none, some ')', some ',', some '\x7d', some '\n'], grammar.shuns n x p = true) :
    grammar.Refuses p r := by
  refine refuses_of_shuns n (hp _ ?_)
  cases r with
  | nil => simp
  | cons x xs =>
    have := h x rfl
    simp_all

theorem Follows.clear {r : List Char} (h : Follows r) : Clear r := by
  intro x hx
  have hall : ∀ x ∈ [')', ',', '\x7d', '\n'], isBlank x = false ∧ x ≠ '#' :=
    forall_mem_chars (by decide)
  exact hall x (h x hx)

/-! ## Items from texts -/

namespace Item

/-- The pattern of an item. -/
def pattern : Item → Pattern Rule
  | operand _ => primary
  | unary .. => Rule.unary
  | binary .. => Rule.binary
  | call .. | field .. => suffix

/-- The text of an item is read by its pattern. -/
def Legible (i : Item) : Prop :=
  ∀ r cs, Spells i.tokens r cs → grammar.Reads i.pattern cs r (Gives [i])

end Item

/-! ### First characters -/

/-- What an operand can start with. -/
def startsOperand (x : Char) : Bool := startsName x || Rule.isDigit x || x == '"' || x == '('

theorem ne_of_class {f : Char → Bool} {x y : Char} (hx : f x = true) (hy : f y = false) : x ≠ y := by
  rintro rfl
  rw [hx] at hy
  cases hy

theorem isDigit_of_startsName {x : Char} (h : startsName x = true) : Rule.isDigit x = false := by
  simp only [startsName, isLetter, Rule.isDigit, Bool.or_eq_true, Bool.and_eq_true,
    decide_eq_true_eq, beq_iff_eq, Bool.and_eq_false_iff, decide_eq_false_iff_not, Char.le_def,
    UInt32.le_iff_toNat_le] at h ⊢
  obtain h | rfl := h
  · simp at h ⊢
    omega
  · decide

/-- The first token of an operand. -/
theorem head_operand {n : Node} (hn : n.Expression) :
    ∃ x xs ts, (Item.operand n).tokens = (x :: xs) :: ts ∧ startsOperand x = true := by
  induction hn using Node.Expression.rec_on with
  | binary | unary | call | field => exact ⟨'(', [], _, rfl, rfl⟩
  | ident span name hname =>
    obtain ⟨x, xs, hx, hstart, -, -⟩ := exists_of_isName hname
    refine ⟨x, xs, [], ?_, by rw [startsOperand, hstart]; rfl⟩
    rw [Item.tokens, Node.tokens, hx]
    rfl
  | int span i hi =>
    have hne : numeral i ≠ [] := Nat.toDigits_ne_nil
    obtain ⟨x, xs, hx⟩ := List.exists_cons_of_ne_nil hne
    have hdigit : Rule.isDigit x = true := isDigit_of_mem_numeral (hx ▸ List.mem_cons_self ..)
    refine ⟨x, xs, [], ?_, by rw [startsOperand, hdigit]; simp⟩
    rw [Item.tokens, Node.tokens, hx]
    rfl
  | str span s hs =>
    refine ⟨'"', s.toList.flatMap escaped ++ ['"'], [], ?_, rfl⟩
    rw [Item.tokens, Node.tokens]
    rfl

/-- The text of an operand starts neither with blanks nor with a unary operator. -/
theorem clear_operand {n : Node} (hn : n.Expression) {r cs : List Char}
    (h : Spells (Item.operand n).tokens r cs) : Clear cs ∧ grammar.Refuses unary cs := by
  obtain ⟨x, xs, ts, heq, hx⟩ := head_operand hn
  rw [heq] at h
  cases h
  have hne {y : Char} (hy : startsOperand y = false) : x ≠ y := ne_of_class hx hy
  refine ⟨fun z hz => ?_, refuses_first 4 ?_⟩
  · cases hz
    refine ⟨?_, hne (by decide)⟩
    simp [isBlank, hne (y := ' ') (by decide), hne (y := '\t') (by decide), hne (y := '\r') (by decide)]
  · show (some x != some '-' && some x != some '!') = true
    simp [hne (y := '-') (by decide), hne (y := '!') (by decide)]

/-- The text of a binary operator starts neither with blanks nor with a call or a select. -/
theorem clear_binary {op : String} (hop : (binaryRule? op).isSome) {strength : Nat} {span : Span}
    {r cs : List Char} (h : Spells (Item.binary op strength span).tokens r cs) :
    Clear cs ∧ grammar.Refuses suffix cs := by
  obtain ⟨q, hq⟩ := Option.isSome_iff_exists.mp hop
  have hall : ∀ q ∈ binaries, q.operatorText.toList.head?.any (fun x => !isBlank x && x != '#' &&
      grammar.shuns 4 (some x) suffix) = true := by decide
  obtain ⟨x, hx, hfirst⟩ := (Option.any_eq_true _ _).mp (hall q (List.mem_of_find?_eq_some hq))
  simp only [Bool.and_eq_true, Bool.not_eq_true', bne_iff_ne] at hfirst
  obtain ⟨⟨hblank, hcomment⟩, hsuffix⟩ := hfirst
  have htext : q.operatorText = op := by simpa using List.find?_some hq
  rw [htext] at hx
  cases h
  have hhead (ys : List Char) : (op.toList ++ ys).head? = some x := by
    rw [List.head?_append, hx, Option.some_or]
  refine ⟨fun z hz => ?_, refuses_of_shuns 4 (by rw [hhead, hsuffix])⟩
  rw [hhead] at hz
  cases hz
  exact ⟨hblank, hcomment⟩

/-! ### Flat expressions -/

/-- Items of one kind are read by a repetition. -/
theorem reads_star_items {p : Pattern Rule} {items : List Item} {r cs : List Char}
    (hp : ∀ i ∈ items, i.pattern = p) (hl : ∀ i ∈ items, i.Legible)
    (h : Spells (items.flatMap Item.tokens) r cs) (hr : grammar.Refuses p r) (hc : Clear r) :
    grammar.Reads (.star p) cs r (Gives items) := by
  induction items generalizing cs with
  | nil =>
    cases h
    exact (hr.star hc.rests).mono fun ts ht => ht ▸ .nil
  | cons i items ih =>
    obtain ⟨mid, hi, h⟩ := Spells.append h
    have hi := hl i (List.mem_cons_self ..) mid cs hi
    rw [hp i (List.mem_cons_self ..)] at hi
    exact hi.star (ih (fun j hj => hp j (List.mem_cons_of_mem _ hj))
      (fun j hj => hl j (List.mem_cons_of_mem _ hj)) h) fun s t hs ht => hs.append ht

/-- Operators and operands between binary operators. -/
def further : Pattern Rule := seqs [binary, star unary, primary, star suffix]

/-- An operand with what stands before it and behind it. -/
theorem reads_chunk {us ss : List Item} {n : Node} {r cs : List Char}
    (hu : ∀ u ∈ us, u.isUnary = true) (hn : n.Expression) (hs : ∀ s ∈ ss, s.isSuffix = true)
    (hl : ∀ i ∈ us ++ .operand n :: ss, i.Legible)
    (h : Spells ((us ++ .operand n :: ss).flatMap Item.tokens) r cs) (hr : grammar.Refuses suffix r)
    (hc : Clear r) : ∃ m m', grammar.Reads (.star unary) cs m (Gives us) ∧
      grammar.Reads primary m m' (Gives [.operand n]) ∧ grammar.Reads (.star suffix) m' r (Gives ss) := by
  rw [List.flatMap_append, List.flatMap_cons] at h
  obtain ⟨m, h₁, h⟩ := h.append
  obtain ⟨m', h₂, h₃⟩ := h.append
  have hoperand := hl (.operand n) (by simp) m' m h₂
  refine ⟨m, m', ?_, hoperand, ?_⟩
  · refine reads_star_items (fun u h => ?_) (fun i hi => hl i (by simp [hi])) h₁ (clear_operand hn h₂).2
      (clear_operand hn h₂).1
    have := hu u h
    cases u <;> first | rfl | cases this
  · refine reads_star_items (fun s h => ?_) (fun i hi => hl i (by simp [hi])) h₃ hr hc
    have := hs s h
    cases s <;> first | rfl | cases this

/-- The items of a flat expression are read, the first operand apart. -/
theorem reads_flat {items : List Item} (h : Item.Flat items) (hl : ∀ i ∈ items, i.Legible) :
    ∀ {r cs : List Char}, Follows r → Spells (items.flatMap Item.tokens) r cs →
    ∃ us n ss rest m m' m'', items = us ++ .operand n :: ss ++ rest ∧
      grammar.Reads (.star unary) cs m (Gives us) ∧ grammar.Reads primary m m' (Gives [.operand n]) ∧
      grammar.Reads (.star suffix) m' m'' (Gives ss) ∧
      grammar.Reads (.star further) m'' r (Gives rest) := by
  induction h with
  | @one us ss n hu hn hs =>
    intro r cs hr h
    have hsuffix : grammar.Refuses suffix r := hr.refuses 4 (by decide)
    have hfurther : grammar.Refuses further r := (hr.refuses 16 (by decide) : grammar.Refuses binary r).seq
    obtain ⟨m, m', h₁, h₂, h₃⟩ := reads_chunk hu hn hs hl h hsuffix hr.clear
    exact ⟨us, n, ss, [], m, m', r, (List.append_nil _).symm, h₁, h₂, h₃,
      (hfurther.star hr.clear.rests).mono fun ts ht => ht ▸ .nil⟩
  | @cons us ss items n op strength span hu hn hs hop _ ih =>
    intro r cs hr h
    rw [List.flatMap_append, List.flatMap_cons] at h
    obtain ⟨k, h, h'⟩ := h.append
    obtain ⟨k', hop', h'⟩ := h'.append
    obtain ⟨hclear, hsuffix⟩ := clear_binary hop hop'
    obtain ⟨m, m', h₁, h₂, h₃⟩ := reads_chunk hu hn hs
      (fun i hi => hl i (List.mem_append_left _ hi)) h hsuffix hclear
    obtain ⟨us', n', ss', rest, l, l', l'', rfl, i₁, i₂, i₃, i₄⟩ :=
      ih (fun i hi => hl i (List.mem_append_right _ (List.mem_cons_of_mem _ hi))) hr h'
    have hbinary := hl (.binary op strength span) (by simp) k' k hop'
    refine ⟨us, n, ss, _, m, m', k, rfl, h₁, h₂, h₃, ?_⟩
    have hone : grammar.Reads further k l'' (Gives (.binary op strength span :: (us' ++ .operand n' :: ss'))) :=
      hbinary.seq (i₁.seq (i₂.seq i₃ fun s t => Gives.append) fun s t => Gives.append) fun s t => Gives.append
    exact hone.star i₄ fun s t => Gives.append

/-- What is read of the items of an expression is the expression. -/
theorem reads_of_legible {e : Node} (he : e.Expression) (hl : ∀ i ∈ e.flat 0, i.Legible)
    {r cs : List Char} (hr : Follows r) (h : Spells (e.tokens 0) r cs) :
    grammar.Reads (.rule .expression) cs r (Shows e) := by
  rw [Node.tokens_flat he] at h
  obtain ⟨us, n, ss, rest, m, m', m'', heq, h₁, h₂, h₃, h₄⟩ := reads_flat (e.flat_shape he 0) hl hr h
  have hbody : grammar.Reads (grammar.body .expression) cs r (Gives (e.flat 0)) := by
    refine h₁.seq (h₂.seq (h₃.seq h₄ fun s t => Gives.append) fun s t => Gives.append) fun s t hs ht => ?_
    rw [heq]
    simpa using hs.append ht
  exact hbody.node rfl fun span ts h => h.shows he span

/-! ### Items one by one -/

theorem legible_unary {op : String} (hop : op = "-" ∨ op = "!") (span : Span) :
    (Item.unary op span).Legible := by
  intro r cs h
  obtain ⟨b, rfl, hb⟩ := Spells.single h
  obtain rfl | rfl := hop
  · refine (reads_unary (r := neg) (by simp) hb).mono fun ts h => ?_
    obtain ⟨place, rfl⟩ := h
    exact .one (j := .unary "-" place) (by rw [Tree.toItem]; rfl) rfl
  · refine (reads_unary (r := Rule.not) (by simp) hb).mono fun ts h => ?_
    obtain ⟨place, rfl⟩ := h
    exact .one (j := .unary "!" place) (by rw [Tree.toItem]; rfl) rfl

theorem legible_binary {op : String} (hop : (binaryRule? op).isSome) (span : Span) :
    (Item.binary op (strengthOf op) span).Legible := by
  intro r cs h
  obtain ⟨b, rfl, hb⟩ := Spells.single h
  obtain ⟨q, hq⟩ := Option.isSome_iff_exists.mp hop
  have htext : q.operatorText = op := by simpa using List.find?_some hq
  have hmem := List.mem_of_find?_eq_some hq
  have hstrength : strengthOf op = q.strength := by rw [strengthOf, hq]; rfl
  rw [hstrength]
  subst htext
  refine (reads_binary hmem hb).mono fun ts h => ?_
  obtain ⟨place, rfl⟩ := h
  refine .one (j := .binary q.operatorText q.strength place) ?_ rfl
  simp only [binaries, List.mem_cons, List.not_mem_nil, or_false] at hmem
  obtain rfl | rfl | rfl | rfl | rfl | rfl | rfl | rfl | rfl | rfl | rfl | rfl | rfl := hmem <;>
    simp [Tree.toItem, pure, Except.pure]

theorem legible_field {name : String} (hname : isName name = true) (stop : Nat) :
    (Item.field name stop).Legible := by
  intro r cs h
  obtain ⟨b, mid, rfl, hb, h⟩ := Spells.uncons h
  obtain ⟨b', rfl, hb'⟩ := h.single
  refine (refuses_first (p := .rule .callOp) 4 rfl).alt_reads ?_
  have hbody : grammar.Reads (grammar.body .fieldOp) _ r
      fun ts => ∃ span, ts = [.leaf .field span name.toList] :=
    reads_text_seq (t := ['.']) hb (reads_field hname hb')
  refine hbody.node rfl fun span ts h => .one (j := .field name span.stop) ?_ rfl
  obtain ⟨place, rfl⟩ := h
  rw [Tree.toItem]
  simp only [leafTexts, String.ofList_toList]
  rfl

/-- A literal or a name is an operand. -/
theorem Gives.leaf {rule : Rule} {span : Span} {text : List Char} {n e : Node}
    (h : leafNode rule span text = .ok n) (hb : n.bare = e.bare) :
    Gives [.operand e] [.leaf rule span text] := by
  refine .one (j := .operand n) ?_ (by rw [Item.bare, Item.bare, hb])
  rw [Tree.toItem, h]
  rfl

theorem legible_ident {name : String} (hname : isName name = true) (span : Span) :
    (Item.operand (.ident span name)).Legible := by
  intro r cs h
  rw [Item.tokens, Node.tokens] at h
  obtain ⟨b, rfl, hb⟩ := Spells.single h
  obtain ⟨x, xs, hx, hstart, -, -⟩ := exists_of_isName hname
  have hdigit : (!Rule.isDigit x) = true := by rw [isDigit_of_startsName hstart]; rfl
  have hne {y : Char} (hy : startsName y = false) : (some x != some y) = true :=
    bne_iff_ne.mpr fun h => ne_of_class hstart hy (Option.some.inj h)
  have hfirst {p : Pattern Rule} (hp : grammar.shuns 6 (some x) p = true) :
      grammar.Refuses p (name.toList ++ (b ++ r)) := by
    rw [hx]
    exact refuses_first 6 hp
  have hfloat := hfirst (p := .rule .float) hdigit
  have hinteger := hfirst (p := .rule .integer) hdigit
  have hstring := hfirst (p := .rule .string) (hne (y := '"') (by decide))
  have hgrouped := hfirst (p := .rule .grouped) (hne (y := '(') (by decide))
  refine hfloat.alt_reads (hinteger.alt_reads (hstring.alt_reads (hgrouped.alt_reads ?_)))
  refine (reads_ident hname hb).mono fun ts h => ?_
  obtain ⟨place, rfl⟩ := h
  refine .leaf (n := .ident place name) ?_ rfl
  rw [leafNode, String.ofList_toList]
  rfl

theorem legible_int {i : Int64} (hi : 0 ≤ i) (span : Span) :
    (Item.operand (.literal span (.int i))).Legible := by
  intro r cs h
  rw [Item.tokens, Node.tokens] at h
  obtain ⟨b, rfl, hb⟩ := Spells.single h
  have hne : numeral i ≠ [] := Nat.toDigits_ne_nil
  obtain ⟨x, xs, hx⟩ := List.exists_cons_of_ne_nil hne
  have hdigit : ∀ y ∈ x :: xs, Rule.isDigit y = true := fun y hy => isDigit_of_mem_numeral (hx ▸ hy)
  rw [hx]
  refine (refuses_float hdigit hb.stops).alt_reads (Reads.alt ?_)
  refine (reads_integer hdigit hb).mono fun ts h => ?_
  obtain ⟨place, rfl⟩ := h
  rw [← hx]
  exact .leaf (leafNode_numeral place hi) rfl

theorem legible_str {s : String} (hs : '\r' ∉ s.toList) (span : Span) :
    (Item.operand (.literal span (.str s))).Legible := by
  intro r cs h
  rw [Item.tokens, Node.tokens] at h
  obtain ⟨b, rfl, hb⟩ := Spells.single h
  refine (refuses_first 4 rfl).alt_reads ((refuses_first 4 rfl).alt_reads (Reads.alt ?_))
  refine (reads_string hs hb).mono fun ts h => ?_
  obtain ⟨place, rfl⟩ := h
  exact .leaf (leafNode_stringText place s) rfl

/-- The text of an expression is read up to whatever follows it. -/
def Node.Legible (e : Node) : Prop :=
  ∀ r cs, Follows r → Spells (e.tokens 0) r cs → grammar.Reads (.rule .expression) cs r (Shows e)

theorem follows_cons {x : Char} {xs : List Char} (h : x ∈ [')', ',', '\x7d', '\n']) :
    Follows (x :: xs) := by
  intro y hy
  cases hy
  exact h

theorem legible_grouped {e : Node} (he : e.isAtom = false) (hl : e.Legible) :
    (Item.operand e).Legible := by
  intro r cs h
  rw [Item.tokens, he] at h
  obtain ⟨b, mid, rfl, hb, h⟩ := Spells.uncons h
  obtain ⟨mid', hinner, hclose⟩ := h.append
  obtain ⟨b', rfl, hb'⟩ := hclose.single
  refine (refuses_first 4 rfl).alt_reads ((refuses_first 4 rfl).alt_reads
    ((refuses_first 4 rfl).alt_reads (Reads.alt ?_)))
  have hbody : grammar.Reads (grammar.body .grouped) _ r (Shows e) :=
    reads_text_seq (t := ['(']) hb ((hl _ _ (follows_cons (by decide)) hinner).seq
      (reads_text (t := [')']) hb') fun s t hs ht => by rwa [ht, List.append_nil])
  refine hbody.node rfl fun span ts ht => ?_
  obtain ⟨n, hn, hbare⟩ := ht.toNodes
  refine .one (j := .operand n) ?_ (by rw [Item.bare, Item.bare, hbare])
  rw [Tree.toItem, hn]
  rfl

/-! ### Lists with commas -/

/-- Texts with commas between them are read one by one. -/
theorem reads_commas {α : Type} {tokens : α → List (List Char)} {p : Pattern Rule}
    {P : α → List (Tree Rule) → Prop} {Q : List α → List (Tree Rule) → Prop} (hnil : Q [] [])
    (hcons : ∀ a as s t, P a s → Q as t → Q (a :: as) (s ++ t)) {r : List Char}
    (hr : grammar.Refuses (word ",") r) (hc : Clear r) {a : α} {as : List α}
    (hread : ∀ a' ∈ a :: as, ∀ s cs, s = r ∨ s.head? = some ',' → Spells (tokens a') s cs →
      grammar.Reads p cs s (P a'))
    {cs : List Char} (h : Spells (commas ((a :: as).map tokens)) r cs) :
    ∃ m, grammar.Reads p cs m (P a) ∧ grammar.Reads (.star (.seq (word ",") p)) m r (Q as) := by
  induction as generalizing a cs with
  | nil =>
    refine ⟨r, hread a (List.mem_cons_self ..) r cs (.inl rfl) h, ?_⟩
    exact (hr.seq.star hc.rests).mono fun ts ht => ht ▸ hnil
  | cons a' as ih =>
    obtain ⟨m, ha, h⟩ := Spells.append h
    obtain ⟨b, mid, rfl, hb, h⟩ := h.uncons
    obtain ⟨m', ha', has⟩ := ih (fun x hx => hread x (List.mem_cons_of_mem _ hx)) h
    refine ⟨_, hread a (List.mem_cons_self ..) _ cs (.inr rfl) ha, ?_⟩
    have hone : grammar.Reads (.seq (word ",") p) ([','] ++ (b ++ mid)) m' (P a') :=
      reads_text_seq (t := [',']) hb ha'
    exact hone.star has fun s t hs ht => hcons a' as s t hs ht

/-! ### Calls -/

theorem Node.allTokens_eq (ns : List Node) : allTokens ns = ns.map (tokens 0) := by
  induction ns with
  | nil => rw [allTokens, List.map_nil]
  | cons n ns ih => rw [allTokens, List.map_cons, ih]

/-- What follows an expression is not an expression. -/
theorem Follows.refuses_expression {r : List Char} (h : Follows r) :
    grammar.Refuses (.rule .expression) r := by
  have hunary : grammar.Refuses unary r := h.refuses 4 (by decide)
  have hident : grammar.Refuses (.rule .ident) r := by
    refine refuses_ident fun x hx => ?_
    have hall : ∀ x ∈ [')', ',', '\x7d', '\n'], startsName x = false := forall_mem_chars (by decide)
    exact hall x (h x hx)
  have hprimary : grammar.Refuses primary r :=
    Refuses.alt (h.refuses 6 (by decide)) (Refuses.alt (h.refuses 6 (by decide))
      (Refuses.alt (h.refuses 6 (by decide)) (Refuses.alt (h.refuses 6 (by decide)) hident)))
  exact Refuses.node rfl ((hunary.star h.clear.rests).seq_refuses hprimary.seq)

/-- The arguments of a call are read up to its bracket. -/
theorem reads_args {args : List Node} (hl : ∀ a ∈ args, a.Legible) {r cs : List Char}
    (hr : r.head? = some ')') (h : Spells (commas (Node.allTokens args)) r cs) :
    grammar.Reads (opt (separated (word ",") (.rule .expression))) cs r (Makes args) := by
  have hfollows : Follows r := by
    intro x hx
    rw [hr] at hx
    cases hx
    decide
  cases args with
  | nil =>
    cases h
    refine Refuses.alt_reads hfollows.refuses_expression.seq ?_
    exact (Reads.empty hfollows.clear.rests).mono fun ts ht => ht ▸ .nil
  | cons a as =>
    rw [Node.allTokens_eq] at h
    have hcomma : grammar.Refuses (word ",") r := refuses_of_shuns 1 (by rw [hr]; rfl)
    obtain ⟨m, ha, has⟩ := reads_commas (P := Shows) (Q := Makes) .nil
      (fun a as s t hs ht => hs.makes.append ht) hcomma hfollows.clear
      (fun a' ha' s cs' hs h' => by
        refine hl a' ha' s cs' ?_ h'
        obtain rfl | hs := hs
        · exact hfollows
        · intro x hx
          rw [hs] at hx
          cases hx
          decide) h
    exact (ha.seq has fun s t hs ht => hs.makes.append ht).alt

theorem legible_call {args : List Node} (hl : ∀ a ∈ args, a.Legible) (stop : Nat) :
    (Item.call args stop).Legible := by
  intro r cs h
  obtain ⟨b, mid, rfl, hb, h⟩ := Spells.uncons h
  obtain ⟨mid', hargs, hclose⟩ := h.append
  obtain ⟨b', rfl, hb'⟩ := hclose.single
  have hbody : grammar.Reads (grammar.body .callOp) _ r (Makes args) :=
    reads_text_seq (t := ['(']) hb ((reads_args hl rfl hargs).seq
      (reads_text (t := [')']) hb') fun s t hs ht => by rwa [ht, List.append_nil])
  refine Reads.alt (hbody.node rfl fun span ts ht => ?_)
  obtain ⟨found, hf, hbare⟩ := ht
  refine .one (j := .call found span.stop) ?_ (by rw [Item.bare, Item.bare, hbare])
  rw [Tree.toItem, hf]
  rfl

/-! ## All expressions -/

/-- **The text of an expression is read**, whatever follows it, and gives the expression. -/
theorem reads_expression {e : Node} (he : e.Expression) : e.Legible := by
  suffices h : (∀ level, ∀ i ∈ e.flat level, i.Legible) ∧ e.Legible from h.2
  -- an expression whose items can be read without parentheses can be read in them as well
  have close {e : Node} (he : e.Expression) (hatom : e.isAtom = false)
      (hzero : ∀ i ∈ e.flat 0, i.Legible)
      (hlevel : ∀ level, e.flat level = e.flat 0 ∨ e.flat level = [.operand e]) :
      (∀ level, ∀ i ∈ e.flat level, i.Legible) ∧ e.Legible := by
    have hself : e.Legible := fun r cs hr h => reads_of_legible he hzero hr h
    refine ⟨fun level i hi => ?_, hself⟩
    obtain heq | heq := hlevel level
    · exact hzero i (heq ▸ hi)
    · rw [heq, List.mem_singleton] at hi
      rw [hi]
      exact legible_grouped hatom hself
  have atom {e : Node} (he : e.Expression) (hflat : ∀ level, e.flat level = [.operand e])
      (h : (Item.operand e).Legible) : (∀ level, ∀ i ∈ e.flat level, i.Legible) ∧ e.Legible := by
    have hitems (level : Nat) : ∀ i ∈ e.flat level, i.Legible := by
      rw [hflat level]
      exact List.forall_mem_singleton.mpr h
    exact ⟨hitems, fun r cs hr h => reads_of_legible he (hitems 0) hr h⟩
  induction he using Node.Expression.rec_on with
  | binary span place left op right hop hl hr h ihl ihr =>
    refine close h rfl ?_ fun level => ?_
    · intro i hi
      rw [Node.flat, if_neg (Nat.not_lt_zero _)] at hi
      obtain hi | hi := List.mem_append.mp hi
      · exact ihl.1 _ i hi
      · obtain rfl | hi := List.mem_cons.mp hi
        · exact legible_binary hop _
        · exact ihr.1 _ i hi
    · rw [Node.flat, Node.flat, if_neg (Nat.not_lt_zero _)]
      split
      · exact .inr rfl
      · exact .inl rfl
  | unary span place value op hop hv h ih =>
    refine close h rfl ?_ fun level => ?_
    · intro i hi
      rw [Node.flat, if_neg (Nat.not_lt_zero _)] at hi
      obtain rfl | hi := List.mem_cons.mp hi
      · exact legible_unary hop _
      · exact ih.1 _ i hi
    · rw [Node.flat, Node.flat, if_neg (Nat.not_lt_zero _)]
      split
      · exact .inr rfl
      · exact .inl rfl
  | call span callee args hb hu hargs hc h ih iha =>
    refine close h rfl ?_ fun level => ?_
    · intro i hi
      rw [Node.flat_call _ span hb hu] at hi
      obtain hi | hi := List.mem_append.mp hi
      · exact ih.1 _ i hi
      · rw [List.mem_singleton.mp hi]
        exact legible_call (fun a ha => (iha a ha).2.2) 0
    · rw [Node.flat_call _ span hb hu, Node.flat_call _ span hb hu]
      exact .inl rfl
  | field span value name hname hv h ih =>
    refine close h rfl ?_ fun level => ?_
    · intro i hi
      rw [Node.flat] at hi
      obtain hi | hi := List.mem_append.mp hi
      · exact ih.1 _ i hi
      · rw [List.mem_singleton.mp hi]
        exact legible_field hname 0
    · rw [Node.flat, Node.flat]
      exact .inl rfl
  | ident span name hname h =>
    exact atom h (fun level => Node.flat_atom level rfl) (legible_ident hname span)
  | int span i hi h =>
    exact atom h (fun level => Node.flat_atom level rfl) (legible_int hi span)
  | str span s hs h =>
    exact atom h (fun level => Node.flat_atom level rfl) (legible_str hs span)

end Dataflow
