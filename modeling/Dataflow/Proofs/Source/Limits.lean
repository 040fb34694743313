import Dataflow.Proofs.Source.Gauges
import Dataflow.Proofs.Source.Programs

/-!
# Nesting limits

The measure of a program finds the levels of its match, so a limit refuses what is nested too deeply,
and nothing else unless signs are used for something else than unary operators.

* `gauged_expression`, `gauged_statements`: what the measure does where a rule matches;
* **`peak_eq_level`**: the deepest level that the measure finds is that of the match;
* **`Node.level_le_of_parseWithin`**: what is read stays within the limit;
* **`Node.refused_iff`**: what is refused does not.
-/

namespace Dataflow

open Grammar Pattern Rule Nesting Dataflow.Tree

namespace Gauge

/-! ## Rules -/

section Rules

variable {n : Nat}

section Operators

variable {r : Rule} (hr : r.operatorText ≠ "")
include hr

theorem isToken_operator : isToken r = false := by
  cases r <;> first | rfl | exact absurd rfl hr

theorem body_operator : body r = word r.operatorText := by
  cases r <;> first | rfl | exact absurd rfl hr

theorem plain_operator : r.operatorText.toList ≠ [] ∧
    ∀ x ∈ r.operatorText.toList, isPlain x = true ∧ x ≠ '\n' := by
  cases r <;> first | exact absurd rfl hr | exact ⟨by decide, forall_mem_chars (by decide)⟩

theorem allSigns_operator (span : Span) (ts : List (Tree Rule)) :
    allSigns (.node r span ts) = r.operatorText.toList.map isSign := by
  cases r <;> first | exact absurd rfl hr | rfl

theorem level_operator (span : Span) (ts : List (Tree Rule)) :
    level allSigns (.node r span ts) = levels allSigns ts := by
  cases r <;> first | exact absurd rfl hr | rfl

theorem gauged_operator : Gauged (n + 1) (.rule r) Chained := by
  have hplain := plain_operator hr
  refine .node (isToken_operator hr) (P := fun s ts s' k => ts = [] ∧
    Marked (r.operatorText.toList.map isSign) s ts s' k) ?_ ?_
  · rw [body_operator hr]
    exact gauged_plain hplain.1 hplain.2
  · rintro s ts s' k span ⟨rfl, h⟩ - -
    rw [← allSigns_operator hr span []] at h
    exact Marked.chained h (level_operator hr span [])

end Operators

theorem Lexeme.chained {r : Rule} {marks : List Char → List Bool} {s s' : Nesting}
    {ts : List (Tree Rule)} {k : Nat} (h : Lexeme r marks s ts s' k)
    (hr : ∀ span chars, allSigns (.leaf r span chars) = marks chars) : Chained s ts s' k := by
  obtain ⟨span, chars, rfl, -, h⟩ := h
  rw [← hr span chars] at h
  exact Marked.chained h rfl

theorem gauged_fieldOp : Gauged (n + 1) (.rule .fieldOp) Chained := by
  have hdot : Gauged n (word ".") fun s ts s' k => ts = [] ∧ Marked (['.'].map isSign) s ts s' k :=
    gauged_plain (List.cons_ne_nil _ _) (forall_mem_chars (by decide))
  have hboth : Gauged n (body .fieldOp) fun s ts s' k =>
      ∃ span chars, ts = [.leaf .field span chars] ∧
        Marked (('.' :: chars).map isSign) s ts s' k := by
    refine .seq hdot gauged_field ?_
    rintro s ts s₁ k s₂ us s₃ l ⟨rfl, hcode, rfl, rfl⟩ hr ⟨span, chars, rfl, -, hcode', rfl, rfl⟩ - - - -
    -- a comment would have ended the expression
    obtain rfl | rfl := hr
    · refine ⟨span, chars, rfl, hcode, rfl, ?_⟩
      simp only [List.map_cons, List.map_nil, signPeak, signRun, show isSign '.' = false from rfl,
        Bool.false_eq_true, if_false]
      omega
    · cases hcode'
  refine .node (r := .fieldOp) rfl hboth ?_
  rintro s ts s' k span ⟨span', chars, rfl, h⟩ - -
  exact Marked.chained h rfl

section Expression

variable (h : Gauged n (.rule .expression) Begun)
include h

theorem gauged_grouped : Gauged (n + 1) (.rule .grouped) Chained :=
  .node (r := .grouped) rfl (.seq (gauged_opens (.inl rfl))
    (.seq h (gauged_closes (.inl rfl)) joins_begun_closes) joins_opens_inner)
    fun _ h _ _ => h.chained rfl rfl

theorem gauged_callOp : Gauged (n + 1) (.rule .callOp) Chained := by
  have hargs : Gauged n (opt (separated (word ",") (.rule .expression))) Begun :=
    .alt (.seq h (.star (.seq (gauged_word (by decide)) h joins_ends_begun) still_parted joins_parted) joins_begun)
      (.empty still_begun)
  exact .node (r := .callOp) rfl (.seq (gauged_opens (.inl rfl))
    (.seq hargs (gauged_closes (.inl rfl)) joins_begun_closes) joins_opens_inner)
    fun _ h _ _ => h.chained rfl rfl

theorem gauged_primary : Gauged n primary Chained := by
  have hgrouped := (gauged_grouped h).le n.le_succ
  refine .alts (by simp) fun p hp => ?_
  fin_cases hp
  · exact gauged_float.mono fun h _ _ => h.chained fun _ _ => rfl
  · exact gauged_integer.mono fun h _ _ => h.chained fun _ _ => rfl
  · exact gauged_string.mono fun h _ _ => h.chained fun _ _ => rfl
  · exact hgrouped
  · exact gauged_ident.mono fun h _ _ => h.chained fun _ _ => rfl

theorem gauged_items : Gauged n (body .expression) Chained := by
  have hunary : Gauged n (.star unary) Chained :=
    .star (.alt ((gauged_operator (by decide)).le n.le_succ)
      ((gauged_operator (by decide)).le n.le_succ)) still_chained joins_chained
  have hsuffix : Gauged n (.star suffix) Chained :=
    .star (.alt ((gauged_callOp h).le n.le_succ) (gauged_fieldOp.le n.le_succ))
      still_chained joins_chained
  have hbinary : Gauged n binary Chained := .alts (by simp) fun p hp => by
    obtain ⟨r, hr, rfl⟩ := List.mem_map.mp hp
    have hop : r.operatorText ≠ "" := by fin_cases hr <;> decide
    exact (gauged_operator hop).le n.le_succ
  have hoperand : Gauged n (seqs [.star unary, primary, .star suffix]) Chained :=
    .seq hunary (.seq (gauged_primary h) hsuffix joins_chained) joins_chained
  have hmore := Gauged.star (.seq hbinary hoperand joins_chained) still_chained joins_chained
  exact .seq hunary (.seq (gauged_primary h) (.seq hsuffix hmore joins_chained) joins_chained)
    joins_chained

end Expression

theorem Chained.begun {span : Span} {s s' : Nesting} {ts : List (Tree Rule)} {k : Nat}
    (h : Chained s ts s' k) (hle : s.depth ≤ k) : Begun s [.node .expression span ts] s' k := by
  intro hs
  obtain ⟨-, hk⟩ := h.2 0 (.inl hs)
  refine ⟨h.1, ?_⟩
  rw [levels, levels, level]
  simp only [Nesting.depth] at *
  omega

theorem gauged_expression : Gauged n (.rule .expression) Begun := by
  induction n with
  | zero => exact .zero
  | succ n ih => exact .node (r := .expression) rfl (gauged_items ih) fun _ h hle _ => h.begun hle

/-! ## Statements -/

theorem gauged_params : Gauged (n + 1) (.rule .params) Flat := by
  have hcomma : Gauged n (word ",") Flat := (gauged_word (by decide)).mono fun h _ _ => h.1
  have hname : Gauged n (.rule .ident) Flat := gauged_name.mono fun h _ _ => h.1
  have hstill : Still Flat := fun _ => still_quiet _ |>.1
  refine .node (r := .params) rfl (P := Flat) (.alt (.seq hname
    (.star (.seq hcomma hname joins_flat) hstill joins_flat) joins_flat) (.empty hstill)) ?_
  rintro s ts s' k span ⟨hb, hk, ht⟩ - -
  exact ⟨hb, hk, by rw [levels, levels, level, ht, max_self] <;> simp⟩

theorem gauged_assignment : Gauged (n + 1) (.rule .assignment) Parted := by
  have hname : Gauged n (.rule .ident) Parted := gauged_name.mono fun h _ _ => h.1.parted
  have hcomma : Gauged n (word ",") Parted := (gauged_word (by decide)).mono fun h _ _ => h.1.parted
  have hnames := Gauged.star (.seq hcomma hname joins_parted) still_parted joins_parted
  have hvalue := Gauged.seq (gauged_word (by decide)) gauged_expression joins_ends_begun (a := word "=") (n := n)
  refine .node (r := .assignment) rfl (P := Parted) (.seq hname (.seq hnames
    (.seq (.absent still_parted) hvalue joins_parted) joins_parted) joins_parted) ?_
  rintro s ts s' k span ⟨hb, hk⟩ - -
  exact ⟨hb, by rw [hk, levels, levels, level, max_eq_left (Nat.zero_le _)] <;> simp⟩

theorem gauged_function (h : Gauged n (.rule .block) Parted) :
    Gauged (n + 1) (.rule .function) Parted := by
  have hparams : Gauged n (.rule .params) Flat := gauged_params.le n.le_succ
  have hname : Gauged n (.rule .ident) Flat := gauged_name.mono fun h _ _ => h.1
  have hword : Gauged n (word "fn") Flat := (gauged_word (by decide)).mono fun h _ _ => h.1
  have hbody : Gauged n (.alt (.rule .block) (.rule .expression)) Begun :=
    .alt (h.mono fun h _ _ => h.begun) gauged_expression
  have hshut : Gauged n (seqs [word ")", word ":", .alt (.rule .block) (.rule .expression)]) Shut :=
    .seq (gauged_closes (.inl rfl)) (.seq (gauged_word (by decide)) hbody joins_ends_begun) joins_closes_parted
  refine .node (r := .function) rfl (P := Declares) (.seq hword (.seq hname
    (.seq (gauged_opens (.inl rfl)) (.seq hparams hshut joins_flat_shut) joins_opens_shut)
    joins_flat_declares) joins_flat_declares) ?_
  rintro s ts s' k span ⟨hb, hk⟩ - -
  exact ⟨hb, by rw [hk, levels, levels, level, max_eq_left (Nat.zero_le _)]⟩

theorem gauged_statements (h : Gauged n (.rule .block) Parted) : Gauged n statements Begun := by
  have hstatement : Gauged n statement Begun :=
    .alt (((gauged_function h).le n.le_succ).mono fun h _ _ => h.begun)
      (.alt ((gauged_assignment.le n.le_succ).mono fun h _ _ => h.begun) gauged_expression)
  have hmany : Gauged n (.star separator) Quiet :=
    .star gauged_separator still_quiet fun h hr h' hk hk₁ hl hl₁ =>
      joins_quiet h.quiet hr h' hk hk₁ hl hl₁
  have hsome : Gauged n (plus separator) Ends := .seq gauged_separator hmany joins_ends_quiet
  have hlist : Gauged n (opt (separated (plus separator) statement)) Begun :=
    .alt (.seq hstatement (.star (.seq hsome hstatement joins_ends_begun) still_parted joins_parted)
      joins_begun) (.empty still_begun)
  exact .seq hmany (.seq hlist (hmany.mono fun h _ _ => h.1.parted) joins_begun) joins_quiet_begun

theorem gauged_block : Gauged n (.rule .block) Parted := by
  induction n with
  | zero => exact .zero
  | succ n ih =>
    refine .node (r := .block) rfl (P := Enclosed) (.seq (gauged_opens (.inr rfl))
      (.seq (gauged_statements ih) (gauged_closes (.inr rfl)) joins_begun_closes)
      joins_opens_inner) ?_
    rintro s ts s' k span ⟨hb, -, hk⟩ - -
    exact ⟨hb, by rw [hk, levels, levels, level, max_eq_left (Nat.zero_le _)]⟩

end Rules

/-! ## Programs -/

variable {n : Nat}

theorem gauged_finish : Gauged n (.rule .finish) Parted := by
  cases n with
  | zero => exact .zero
  | succ n =>
    refine .node (r := .finish) rfl (P := Parted) ?_ ?_
    · intro i _ c d ts ho s hs _
      obtain ⟨rfl, -, rfl⟩ := Takes.of_finish ⟨i, ho⟩
      exact ⟨s, _, .refl s _, hs, still_parted s⟩
    · rintro s ts s' k span ⟨hb, hk⟩ - -
      exact ⟨hb, by rw [hk, levels, levels, level, max_eq_left (Nat.zero_le _)] <;> simp⟩

/-- A program is matched to the end. -/
theorem rest_of_takes_finish {c d : Cursor} {ts : List (Tree Rule)}
    (h : grammar.Takes .spaced (.seq statements (.rule .finish)) c d ts) : d.rest = [] := by
  obtain ⟨c₁, c₂, t₁, t₂, -, -, hfinish, -⟩ := h.exists_seq
  obtain ⟨us, hfinish, -⟩ := hfinish.of_node rfl
  obtain ⟨rfl, hrest, -⟩ := hfinish.of_finish
  exact hrest

end Gauge

open Gauge in
/-- **The deepest level that the measure finds is that of the match.** -/
theorem peak_eq_level {cs : List Char} {e : Cursor} {t : Tree Rule} {w : Attempts Rule}
    (h : grammar.start .program cs = (.done e [t], w)) (ht : start.Tidy cs) :
    start.peak cs = t.level allSigns := by
  have hmatch : grammar.Takes .spaced (.rule .program) (.start cs) e [t] :=
    ⟨depthFor cs.length, (fst_run .none).symm.trans (congrArg Prod.fst h)⟩
  obtain ⟨us, hbody, hus⟩ := hmatch.of_node rfl
  cases hus
  obtain ⟨c₁, c₂, t₁, t₂, hempty, hskip, hinner, rfl⟩ := hbody.exists_seq
  obtain ⟨hc, rfl⟩ := hempty.of_text
  obtain rfl : cs = c₁.rest := hc
  obtain ⟨s, hp, hs, hf, hr⟩ := Clean.skip ⟨ht, .inl rfl⟩ hskip
  have hstart : s.brackets = 0 ∧ s.run = 0 := ⟨hr.brackets_eq, hr.run_eq.elim id id⟩
  obtain ⟨j, hj⟩ := hinner
  have hprogram : Gauged j (.seq statements (.rule .finish)) Begun :=
    .seq (gauged_statements gauged_block) gauged_finish joins_begun
  obtain ⟨s', k, hp', -, hk⟩ := hprogram j le_rfl hj hs hf
  obtain ⟨-, rfl⟩ := hk hstart.2
  have hall := hp.trans hp'
  rw [rest_of_takes_finish ⟨j, hj⟩] at hall
  rw [hall.peak_eq, List.nil_append, level]
  · simp [Nesting.depth, hstart, Nesting.start]
  all_goals simp

/-! ## Errors -/

theorem exists_of_bind_eq_ok {ε α β : Type} {x : Except ε α} {f : α → Except ε β} {b : β}
    (h : x >>= f = .ok b) : ∃ a, x = .ok a ∧ f a = .ok b := by
  cases x with
  | ok a => exact ⟨a, rfl, h⟩
  | error e => cases h

/-- Reading that does not fail because of nesting. -/
def Shallow {α : Type} (x : Except SourceError α) : Prop :=
  ∀ e, x = .error e → ∀ depth limit, e.cause ≠ .tooDeep depth limit

section Shallow

variable {α β : Type}

theorem shallow_ok (a : α) : Shallow (.ok a : Except SourceError α) := fun e h => by cases h

theorem shallow_error {cause : SourceError.Cause} {span : Span}
    (h : ∀ depth limit, cause ≠ .tooDeep depth limit) :
    Shallow (.error ⟨cause, span⟩ : Except SourceError α) := by
  rintro e ⟨⟩
  exact h

theorem Shallow.bind {x : Except SourceError α} {f : α → Except SourceError β} (hx : Shallow x)
    (hf : ∀ a, Shallow (f a)) : Shallow (x >>= f) := by
  cases x with
  | ok a => exact hf a
  | error e =>
    rintro e' ⟨⟩
    exact hx e rfl

theorem unescape_shallow (offset : Nat) (cs : List Char) : Shallow (unescape offset cs) := by
  fun_induction unescape offset cs with
  | case1 => exact shallow_ok _
  | case2 _ _ _ ih | case3 _ _ _ ih | case4 _ _ _ ih | case5 _ _ _ ih =>
    exact (shallow_ok _).bind fun _ => Shallow.bind ih fun _ => shallow_ok _
  | case6 =>
    refine (shallow_error ?_ : Shallow (Except.error ⟨.badEscape _, _⟩))
    simp
  | case7 => exact shallow_error (by simp)
  | case8 _ _ _ _ _ ih => exact Shallow.bind ih fun _ => shallow_ok _

theorem leafNode_shallow (rule : Rule) (span : Span) (text : List Char) :
    Shallow (leafNode rule span text) := by
  rw [leafNode.eq_def]
  split
  · refine Shallow.bind ?_ fun _ => shallow_ok _
    rw [readInteger]
    split
    · exact shallow_ok _
    · exact shallow_error (by simp)
  · exact shallow_ok _
  · exact Shallow.bind (unescape_shallow _ _) fun _ => shallow_ok _
  · exact shallow_ok _
  · exact shallow_error (by simp)

theorem expressionOf_shallow (span : Span) (items : List Item) :
    Shallow (expressionOf span items) := by
  rw [expressionOf]
  split
  · exact shallow_ok _
  · exact shallow_error (by simp)

/-- Whatever else is wrong with a match, it is not nested too deeply. -/
theorem trees_shallow : (∀ t, Shallow (Tree.toNode t)) ∧ (∀ ts, Shallow (Tree.toNodes ts)) ∧
    (∀ ts, Shallow (Tree.toItems ts)) ∧ ∀ t, Shallow (Tree.toItem t) := by
  refine Tree.toNode.mutual_induct _ _ _ _ ?leaf ?expression ?grouped ?assignment ?block ?inline
    ?other ?operand ?call ?field ?noField ?group ?neg ?not ?binary ?none ?finish ?some ?noItem ?items
  case leaf => exact leafNode_shallow
  case expression =>
    intro span ts ih
    rw [Tree.toNode]
    exact ih.bind fun items => expressionOf_shallow span items
  case grouped =>
    intro span ts ih
    rw [Tree.toNode]
    refine ih.bind fun nodes => ?_
    split
    · exact shallow_ok _
    · exact shallow_error (by simp)
  case assignment =>
    intro span ts ih
    rw [Tree.toNode]
    refine ih.bind fun nodes => ?_
    split
    · exact shallow_ok _
    · exact shallow_error (by simp)
  case block =>
    intro span _ _ name _ _ params inner ts ih
    rw [Tree.toNode]
    exact ih.bind fun _ => shallow_ok _
  case inline =>
    intro span _ _ name _ _ params inner ts ih
    rw [Tree.toNode]
    exact ih.bind fun items => (expressionOf_shallow inner items).bind fun _ => shallow_ok _
  case other =>
    intro rule span ts h₁ h₂ h₃ h₄ h₅
    rw [Tree.toNode] <;> first | assumption | exact shallow_error (by simp)
  case operand =>
    intro rule span text
    rw [Tree.toItem]
    exact (leafNode_shallow rule span text).bind fun _ => shallow_ok _
  case call =>
    intro span ts ih
    rw [Tree.toItem]
    exact ih.bind fun _ => shallow_ok _
  case field =>
    intro span ts name h
    rw [Tree.toItem, h]
    exact shallow_ok _
  case noField =>
    intro span ts h
    rw [Tree.toItem]
    split
    · exact shallow_ok _
    · exact shallow_error (by simp)
  case group =>
    intro span ts ih
    rw [Tree.toItem]
    refine ih.bind fun nodes => ?_
    split
    · exact shallow_ok _
    · exact shallow_error (by simp)
  case neg =>
    intro span ts
    rw [Tree.toItem]
    exact shallow_ok _
  case not =>
    intro span ts
    rw [Tree.toItem]
    exact shallow_ok _
  case binary =>
    intro rule span ts h₁ h₂ h₃ h₄ h₅
    rw [Tree.toItem] <;> first | assumption | exact shallow_ok _
  case none => exact shallow_ok []
  case finish =>
    intro span us ts ih
    rw [Tree.toNodes]
    exact ih
  case some =>
    intro t ts h ih ihs
    rw [Tree.toNodes]
    · exact ih.bind fun _ => ihs.bind fun _ => shallow_ok _
    · exact h
  case noItem => exact shallow_ok []
  case items =>
    intro t ts ih ihs
    rw [Tree.toItems]
    exact ih.bind fun _ => ihs.bind fun _ => shallow_ok _

end Shallow
/-! ## Limits -/

namespace Node

variable {limit : Nat} {source : String} {e : Cursor} {t : Tree Rule} {w : Attempts Rule}

/-- A program is refused as nested too deeply exactly if its text is. -/
theorem parseWithin_cases (limit : Nat) (source : String) :
    start.peak source.toList ≤ limit ∧ Shallow (parseWithin limit source) ∧
        Nesting.check limit source.toList = .ok () ∨
      limit < start.peak source.toList ∧
        ∃ depth span, parseWithin limit source = .error ⟨.tooDeep depth limit, span⟩ := by
  obtain ⟨hpeak, hcheck⟩ | ⟨hpeak, depth, span, hcheck⟩ :=
    show start.peak source.toList ≤ limit ∧ Nesting.check limit source.toList = .ok () ∨
      limit < start.peak source.toList ∧
        ∃ depth span, Nesting.check limit source.toList = .error ⟨.tooDeep depth limit, span⟩ from
      checkFrom_cases (Nat.zero_le limit)
  · refine .inl ⟨hpeak, ?_, hcheck⟩
    rw [parseWithin]
    refine Shallow.bind (fun e he => by rw [hcheck] at he; cases he) fun _ => ?_
    split
    · exact (trees_shallow.2.1 _).bind fun _ => shallow_ok _
    · exact shallow_error (by simp)
    · exact shallow_error (by simp)
  · refine .inr ⟨hpeak, depth, span, ?_⟩
    rw [parseWithin]
    simp only [hcheck]
    rfl

/-- What is read has a match, and is made from it. -/
theorem exists_start_of_parseWithin {node : Node} (h : parseWithin limit source = .ok node) :
    ∃ e span ts w nodes, grammar.start .program source.toList = (.done e [.node .program span ts], w) ∧
      Tree.toNodes ts = .ok nodes ∧ node = .list ⟨0, source.utf8ByteSize⟩ nodes := by
  rw [parseWithin] at h
  obtain ⟨-, -, h⟩ := exists_of_bind_eq_ok h
  split at h
  · obtain ⟨nodes, hnodes, h⟩ := exists_of_bind_eq_ok h
    cases h
    exact ⟨_, _, _, _, nodes, ‹_›, hnodes, rfl⟩
  · cases h
  · cases h

theorem level_le_limit {node : Node} (h : parseWithin limit source = .ok node)
    (hstart : grammar.start .program source.toList = (.done e [t], w))
    (ht : start.Tidy source.toList) : t.level unarySigns ≤ limit := by
  obtain ⟨hpeak, -, -⟩ | ⟨-, depth, span, herror⟩ := parseWithin_cases limit source
  · calc t.level unarySigns
        ≤ t.level allSigns := level_unary_le t
      _ = start.peak source.toList := (peak_eq_level hstart ht).symm
      _ ≤ limit := hpeak
  · rw [h] at herror
    cases herror

theorem parseWithin_of_outcome {n : Nat} {span : Span} {ts : List (Tree Rule)} {nodes : List Node}
    (h : grammar.outcome n .spaced (.rule .program) (.start source.toList) =
      .done e [.node .program span ts])
    (hcheck : Nesting.check limit source.toList = .ok ()) (hnodes : Tree.toNodes ts = .ok nodes) :
    parseWithin limit source = .ok (.list ⟨0, source.utf8ByteSize⟩ nodes) := by
  obtain ⟨w, hw⟩ := start_of_outcome h
  rw [parseWithin]
  simp only [hcheck]
  rw [hw]
  simp only [hnodes]
  rfl

theorem readInteger_one (span : Span) : readInteger span ['1'] = .ok 1 := rfl

/-- The match of `(-1)`. -/
def sampleMatch : Tree Rule :=
  .node .program ⟨0, 4⟩ [.node .expression ⟨0, 4⟩ [.node .grouped ⟨0, 4⟩ [.node .expression ⟨1, 3⟩
    [.node .neg ⟨1, 2⟩ [], .leaf .integer ⟨2, 3⟩ ['1']]]], .node .finish ⟨4, 4⟩ []]

theorem outcome_sampleMatch : grammar.outcome 64 .spaced (.rule .program) (.start "(-1)".toList) =
    .done ⟨4, []⟩ [sampleMatch] := rfl

theorem parseWithin_sample : parseWithin 2 "(-1)" =
    .ok (.list ⟨0, 4⟩ [.ofUnary "-" ⟨1, 2⟩ (.literal ⟨2, 3⟩ (.int 1))]) := by
  refine parseWithin_of_outcome outcome_sampleMatch (by decide) ?_
  simp [Tree.toNodes, Tree.toNode, Tree.toItems, Tree.toItem, leafNode, readInteger_one,
    expressionOf, Item.tree?, Item.climb, Item.extend, bind, Except.bind, pure, Except.pure]

/-- **What is read stays within the limit**: no point of a program that is read is nested deeper than
the limit, if every comment takes up the rest of its line. -/
theorem level_le_of_parseWithin {node : Node} (h : parseWithin limit source = .ok node)
    (ht : start.Tidy source.toList) : ∃ e t w,
      grammar.start .program source.toList = (.done e [t], w) ∧ t.level unarySigns ≤ limit := by
  obtain ⟨e, span, ts, w, -, hstart, -, -⟩ := exists_start_of_parseWithin h
  exact ⟨e, _, w, hstart, level_le_limit h hstart ht⟩

theorem level_le_sample : (∃ node, parseWithin 2 "(-1)" = .ok node) ∧ start.Tidy "(-1)".toList ∧
    ∃ e t w, grammar.start .program "(-1)".toList = (.done e [t], w) ∧ t.level unarySigns ≤ 2 := by
  have ht : start.Tidy "(-1)".toList := by decide
  exact ⟨⟨_, parseWithin_sample⟩, ht, level_le_of_parseWithin parseWithin_sample ht⟩

/-- A carriage return ends a comment for the grammar only, so what follows it is not measured. -/
theorem level_beyond_limit : ∃ node e t w, parseWithin 1 "#\r((1))" = .ok node ∧
    grammar.start .program "#\r((1))".toList = (.done e [t], w) ∧ 1 < t.level unarySigns := by
  have houtcome : grammar.outcome 64 .spaced (.rule .program) (.start "#\r((1))".toList) = .done ⟨7, []⟩
      [.node .program ⟨0, 7⟩ [.node .expression ⟨2, 7⟩ [.node .grouped ⟨2, 7⟩ [.node .expression ⟨3, 6⟩
        [.node .grouped ⟨3, 6⟩ [.node .expression ⟨4, 5⟩ [.leaf .integer ⟨4, 5⟩ ['1']]]]]],
        .node .finish ⟨7, 7⟩ []]] := rfl
  obtain ⟨w, hw⟩ := start_of_outcome houtcome
  refine ⟨.list ⟨0, 7⟩ [.literal ⟨4, 5⟩ (.int 1)], _, _, w, ?_, hw, by decide⟩
  refine parseWithin_of_outcome houtcome (by decide) ?_
  simp [Tree.toNodes, Tree.toNode, Tree.toItems, Tree.toItem, leafNode, readInteger_one,
    expressionOf, Item.tree?, Item.climb, Item.extend, bind, Except.bind, pure, Except.pure]

/-- **What is refused does not stay within the limit**, where every `-` and `!` of the code counts. If
they are all unary operators, then nothing that stays within the limit is refused. -/
theorem refused_iff (h : grammar.start .program source.toList = (.done e [t], w))
    (ht : start.Tidy source.toList) :
    ((∃ depth span, parseWithin limit source = .error ⟨.tooDeep depth limit, span⟩) ↔
        limit < t.level allSigns) ∧
      (t.OnlyUnary → t.level unarySigns ≤ limit → Shallow (parseWithin limit source)) := by
  have hpeak := peak_eq_level h ht
  obtain ⟨hle, hshallow, -⟩ | ⟨hlt, herror⟩ := parseWithin_cases limit source
  · refine ⟨⟨?_, fun hlt => ?_⟩, fun _ _ => hshallow⟩
    · rintro ⟨depth, span, herror⟩
      exact absurd rfl (hshallow _ herror depth limit)
    · omega
  · refine ⟨⟨fun _ => by omega, fun _ => herror⟩, fun hunary hlevel => ?_⟩
    have := level_unary_eq t hunary
    omega

theorem refused_iff_sample : ∃ e t w, grammar.start .program "(-1)".toList = (.done e [t], w) ∧
    start.Tidy "(-1)".toList ∧ t.OnlyUnary ∧ t.level unarySigns ≤ 2 ∧
    Shallow (parseWithin 2 "(-1)") := by
  obtain ⟨w, hw⟩ := start_of_outcome outcome_sampleMatch
  have ht : start.Tidy "(-1)".toList := by decide
  have hunary : sampleMatch.OnlyUnary := by
    simp only [sampleMatch, OnlyUnary, AllOnlyUnary]
    decide
  have hlevel : sampleMatch.level unarySigns ≤ 2 := by decide
  exact ⟨_, _, w, hw, ht, hunary, hlevel, (refused_iff hw ht).2 hunary hlevel⟩

/-- A binary operator is refused as if it were a unary one. -/
theorem refused_within_limit : ∃ e t w, grammar.start .program "1 - 1".toList = (.done e [t], w) ∧
    start.Tidy "1 - 1".toList ∧ t.level unarySigns = 0 ∧
    parseWithin 0 "1 - 1" = .error ⟨.tooDeep 1 0, ⟨2, 3⟩⟩ := by
  have houtcome : grammar.outcome 64 .spaced (.rule .program) (.start "1 - 1".toList) = .done ⟨5, []⟩
      [.node .program ⟨0, 5⟩ [.node .expression ⟨0, 5⟩ [.leaf .integer ⟨0, 1⟩ ['1'],
        .node .sub ⟨2, 3⟩ [], .leaf .integer ⟨4, 5⟩ ['1']], .node .finish ⟨5, 5⟩ []]] := rfl
  obtain ⟨w, hw⟩ := start_of_outcome houtcome
  exact ⟨_, _, w, hw, by decide, by decide, rfl⟩

end Node

end Dataflow
