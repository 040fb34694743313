import Dataflow.Proofs.Source.Limits
import Dataflow.Proofs.Source.Located

/-!
# Locations

Whatever reading a text ends with is well located: the nodes of the tree, or the error. The matches of
a rule stand one behind the other, and the tree that is built from them keeps their order, although
it drops brackets and takes the spans of operators from operands.

* `Escapes`, `leafNode_lands`: tokens;
* `Finds`: what the matches of a pattern are like, and its laws for each kind of pattern;
* `finds_expression`, `finds_statements`: the rules of the grammar;
* `Node.Located`, `SourceError.Located`: what is said of trees and errors;
* **`Node.parseWithin_located`**: it holds of every text.
-/

namespace Dataflow

open Grammar Pattern Rule

variable {text : List Char}

/-! ## Texts under spans -/

namespace Span

theorem charsBehind_append (before rest : List Char) :
    charsBehind (sizeOfChars before) (before ++ rest) = rest := by
  induction before with
  | nil => cases rest <;> rfl
  | cons c cs ih =>
    have hc := c.utf8Size_pos
    have hsize : sizeOfChars (c :: cs) = c.utf8Size + sizeOfChars cs := rfl
    rw [List.cons_append, charsBehind, if_neg (by omega), hsize, Nat.add_sub_cancel_left, ih]

theorem charsBefore_append (taken cs rest : List Char) :
    charsBefore taken (sizeOfChars cs) (cs ++ rest) = taken.reverse ++ cs := by
  induction cs generalizing taken with
  | nil => cases rest <;> simp [charsBefore, sizeOfChars]
  | cons c cs ih =>
    have hc := c.utf8Size_pos
    have hsize : sizeOfChars (c :: cs) = c.utf8Size + sizeOfChars cs := rfl
    rw [List.cons_append, charsBefore, if_neg (by omega), hsize, Nat.add_sub_cancel_left, ih,
      List.reverse_cons, List.append_assoc, List.singleton_append]

/-- The text under the span of some characters. -/
theorem slice_append (before cs rest : List Char) :
    slice ⟨sizeOfChars before, sizeOfChars before + sizeOfChars cs⟩
      (String.ofList (before ++ (cs ++ rest))) = String.ofList cs := by
  rw [slice, String.toList_ofList, charsBehind_append, Nat.add_sub_cancel_left, charsBefore_append,
    List.reverse_nil, List.nil_append]

end Span

/-! ## Tokens -/

namespace Cursor.On

theorem next {o : Nat} {x : Char} {xs : List Char} (h : Cursor.On text ⟨o, x :: xs⟩) :
    Cursor.On text ⟨o + x.utf8Size, xs⟩ := by
  obtain ⟨before, ht, hs⟩ := h
  refine ⟨before ++ [x], by rw [ht, List.append_assoc]; rfl, ?_⟩
  rw [sizeOfChars_append, hs]
  rfl

/-- The span from one cursor to a later one. -/
theorem span {c d : Cursor} (hc : c.On text) (hd : d.On text) (h : c.offset ≤ d.offset) :
    Span.In text c.offset d.offset ⟨c.offset, d.offset⟩ :=
  ⟨Nat.le_refl _, h, Nat.le_refl _, hc.boundary, hd.boundary⟩

end Cursor.On

/-- Characters that stand for themselves, and backslashes with the character behind them. -/
inductive Escapes : List Char → Prop
  | nil : Escapes []
  | plain {c cs} (hc : c ≠ '\\') (h : Escapes cs) : Escapes (c :: cs)
  | escape {c cs} (h : Escapes cs) : Escapes ('\\' :: c :: cs)

namespace Escapes

theorem append {cs ds : List Char} (h : Escapes cs) (h' : Escapes ds) : Escapes (cs ++ ds) := by
  induction h with
  | nil => exact h'
  | plain hc _ ih => exact .plain hc ih
  | escape _ ih => exact .escape ih

theorem of_escape {c : Char} {cs : List Char} (h : Escapes ('\\' :: c :: cs)) : Escapes cs := by
  cases h with
  | plain hc => exact absurd rfl hc
  | escape h => exact h

theorem of_plain {c : Char} {cs : List Char} (h : Escapes (c :: cs)) (hc : c ≠ '\\') :
    Escapes cs := by
  cases h with
  | plain _ h => exact h
  | escape => exact absurd rfl hc

/-- A string literal is made of these, between its quotes. -/
theorem of_takes {c d : Cursor} {ts : List (Tree Rule)}
    (h : grammar.Takes .tight (body .string) c d ts) :
    ∃ cs, Escapes cs ∧ c.rest = '"' :: (cs ++ '"' :: d.rest) := by
  obtain ⟨c₁, c₂, t₁, t₂, hopen, hskip, h, -⟩ := h.exists_seq
  cases hskip
  obtain ⟨c₃, c₄, t₃, t₄, hchars, hskip, hclose, -⟩ := h.exists_seq
  cases hskip
  have hopen : c.rest = '"' :: c₁.rest := hopen.of_text.1
  have hclose : c₃.rest = '"' :: d.rest := hclose.of_text.1
  refine Exists.elim (hchars.star_induct (I := fun e => ∃ cs, Escapes cs ∧ c₁.rest = cs ++ e.rest)
    ⟨[], .nil, rfl⟩ ?_).1 ?_
  rotate_left
  · rintro cs ⟨hcs, hrest⟩
    exact ⟨cs, hcs, by rw [hopen, hrest, hclose]⟩
  · rintro e f _ ⟨cs, hcs, he⟩ hone
    obtain hone | hone := hone.of_alt
    · obtain ⟨e₁, e₂, _, _, habsent, hskip, hany, -⟩ := hone.exists_seq
      cases hskip
      obtain ⟨rfl, -, hfails⟩ := habsent.of_absent
      obtain ⟨x, hx, -, -⟩ := hany.of_satisfy
      have hslash : x ≠ '\\' := by
        rintro rfl
        exact hfails.of_alt.2.of_alt.1.of_text _ hx
      exact ⟨cs ++ [x], hcs.append (.plain hslash .nil), by rw [he, hx, List.append_assoc]; rfl⟩
    · obtain ⟨e₁, e₂, _, _, hslash, hskip, hany, -⟩ := hone.exists_seq
      cases hskip
      obtain ⟨x, hx, -, -⟩ := hany.of_satisfy
      have hslash : e.rest = '\\' :: e₁.rest := hslash.of_text.1
      exact ⟨cs ++ ['\\', x], hcs.append (.escape .nil), by
        rw [he, hslash, hx, List.append_assoc]
        rfl⟩

end Escapes

/-- Every escape is known, or it is found where it stands. -/
theorem unescape_lands {offset : Nat} {cs rest : List Char} (h : Escapes cs)
    (hc : Cursor.On text ⟨offset, cs ++ rest⟩) : Lands text (fun _ => True) (unescape offset cs) := by
  have hslash : '\\'.utf8Size = 1 := rfl
  fun_induction unescape offset cs with
  | case1 => trivial
  | case2 _ _ _ ih | case3 _ _ _ ih | case4 _ _ _ ih | case5 _ _ _ ih =>
    have hnext := hc.next.next
    rw [hslash] at hnext
    exact Lands.bind (p := fun _ => True) trivial fun _ _ =>
      (ih h.of_escape hnext).bind fun _ _ => trivial
  | case6 offset c cs =>
    have hnext := hc.next.next
    rw [hslash] at hnext
    have hle : offset ≤ offset + 1 + c.utf8Size := by omega
    exact ⟨(hc.span hnext hle).all, by simp⟩
  | case7 =>
    cases h with
    | plain hc => exact absurd rfl hc
  | case8 offset c cs hc₁ hc₂ ih =>
    have hplain : c ≠ '\\' := by
      rintro rfl
      cases cs with
      | nil => exact hc₂ rfl rfl
      | cons x xs => exact hc₁ x xs rfl rfl
    exact (ih (h.of_plain hplain) hc.next).bind fun _ _ => trivial

theorem readInteger_lands {span : Span} {digits : List Char} {lo hi : Nat}
    (h : span.In text lo hi) : Lands text (fun _ => True) (readInteger span digits) := by
  rw [readInteger]
  split
  · trivial
  · exact ⟨h.all, by simp⟩

/-- A token becomes a node of its span. -/
theorem leafNode_lands {r : Rule} (hr : r ∈ [integer, float, string, ident]) {c d : Cursor}
    {ts : List (Tree Rule)} (hc : c.On text) (h : grammar.Takes .tight (body r) c d ts) :
    Lands text (Node.In text c.offset d.offset) (leafNode r ⟨c.offset, d.offset⟩ (c.upTo d)) := by
  obtain ⟨n, hn⟩ := h
  obtain ⟨hd, hle⟩ := hc.of_outcome hn
  have hspan := hc.span hd hle
  fin_cases hr
  · exact (readInteger_lands hspan).bind fun i _ => Node.in_literal hspan _
  · exact Node.in_literal hspan _
  · obtain ⟨cs, hcs, hrest⟩ := Escapes.of_takes ⟨n, hn⟩
    have htext : c.upTo d = '"' :: (cs ++ ['"']) :=
      Takes.upTo ⟨n, hn⟩ (by rw [hrest, List.cons_append, List.append_assoc]; rfl)
    have hinner : (c.upTo d).tail.dropLast = cs := by
      rw [htext, List.tail_cons, List.dropLast_concat]
    have hquote : '"'.utf8Size = 1 := rfl
    have hbody : Cursor.On text ⟨c.offset + 1, cs ++ '"' :: d.rest⟩ := by
      rw [← hquote]
      exact Cursor.On.next (hrest ▸ hc)
    rw [leafNode, hinner]
    exact (unescape_lands hcs hbody).bind fun _ _ => Node.in_literal hspan _
  · obtain ⟨before, rfl, hbefore⟩ := hc
    obtain ⟨cs, hrest, hd⟩ := passes_of_outcome hn
    refine Node.in_ident hspan ?_
    rw [Takes.upTo ⟨n, hn⟩ hrest, hrest, hd, ← hbefore, Span.slice_append]

/-! ## Laws -/

/-- What can be said of the trees of a match between two offsets. -/
abbrev Finding := Nat → Nat → List (Tree Rule) → Prop

/-- What the matches of a pattern in a text are like, with recursion at most `n` deep. -/
def Finds (text : List Char) (n : Nat) (p : Pattern Rule) (P : Finding) : Prop :=
  ∀ i ≤ n, ∀ {c d ts}, grammar.outcome i .spaced p c = .done d ts → c.On text →
    P c.offset d.offset ts

/-- How what holds of two parts is joined: there may be blanks between them. -/
def Adjoins (P Q T : Finding) : Prop := ∀ {lo mid mid' hi ts us}, P lo mid ts → Q mid' hi us →
  lo ≤ mid → mid ≤ mid' → mid' ≤ hi → T lo hi (ts ++ us)

namespace Finds

variable {n n' : Nat} {a b p : Pattern Rule} {P Q T : Finding}

theorem le (h : Finds text n p P) (hn : n' ≤ n) : Finds text n' p P := fun i hi => h i (hi.trans hn)

theorem zero : Finds text 0 p P := by
  intro i hi c d ts h
  cases Nat.le_zero.mp hi
  cases h

theorem mono (h : Finds text n p P) (hPQ : ∀ {lo hi ts}, P lo hi ts → lo ≤ hi → Q lo hi ts) :
    Finds text n p Q := fun i hi _ _ _ ho hc => hPQ (h i hi ho hc) (hc.of_outcome ho).2

theorem seq (ha : Finds text n a P) (hb : Finds text n b Q) (h : Adjoins P Q T) :
    Finds text n (.seq a b) T := by
  intro i hi c d ts ho hc
  cases i with
  | zero => cases ho
  | succ i =>
    rw [outcome_seq] at ho
    obtain ⟨c₁, t₁, h₁, ho⟩ | ⟨-, ho⟩ := Matched.elim_eq_done ho
    · obtain ⟨c₂, t₂, hskip, ho⟩ | ⟨-, ho⟩ := Matched.elim_eq_done ho
      · obtain ⟨c₃, t₃, h₃, ho⟩ | ⟨-, ho⟩ := Matched.elim_eq_done ho
        · cases ho
          obtain ⟨hc₁, hle₁⟩ := hc.of_outcome h₁
          obtain ⟨hc₂, hle₂⟩ := hc₁.of_skipped hskip
          obtain ⟨-, hle₃⟩ := hc₂.of_outcome h₃
          exact h (ha i (by omega) h₁ hc) (hb i (by omega) h₃ hc₂) hle₁ hle₂ hle₃
        · cases ho
      · cases ho
    · cases ho

theorem alt (ha : Finds text n a P) (hb : Finds text n b P) : Finds text n (.alt a b) P := by
  intro i hi c d ts ho hc
  cases i with
  | zero => cases ho
  | succ i =>
    rw [outcome_alt] at ho
    obtain ⟨c₁, t₁, h₁, ho⟩ | ⟨-, ho⟩ := Matched.elim_eq_done ho
    · cases ho
      exact ha i (by omega) h₁ hc
    · exact hb i (by omega) ho hc

theorem alts {ps : List (Pattern Rule)} (hps : ps ≠ []) (h : ∀ p ∈ ps, Finds text n p P) :
    Finds text n (Pattern.alts ps) P := by
  induction ps with
  | nil => exact absurd rfl hps
  | cons p ps ih =>
    cases ps with
    | nil => exact h p (List.mem_cons_self ..)
    | cons q qs =>
      exact .alt (h p (List.mem_cons_self ..)) (ih (by simp) fun r hr => h r (List.mem_cons_of_mem _ hr))

/-- A pattern that takes nothing. -/
theorem empty (h : ∀ lo, P lo lo []) : Finds text n Pattern.empty P := by
  intro i hi c d ts ho hc
  cases i with
  | zero => cases ho
  | succ i =>
    rw [Pattern.empty, outcome_text] at ho
    cases ho
    exact h _

theorem absent (h : ∀ lo, P lo lo []) : Finds text n (.absent a) P := by
  intro i hi c d ts ho hc
  obtain ⟨rfl, rfl, -⟩ := Takes.of_absent ⟨i, ho⟩
  exact h _

theorem finish (h : ∀ lo, P lo lo []) : Finds text n .finish P := by
  intro i hi c d ts ho hc
  obtain ⟨rfl, -, rfl⟩ := Takes.of_finish ⟨i, ho⟩
  exact h _

/-- What holds of nothing, and is kept by one match behind others, holds of a repetition. -/
theorem star (ha : Finds text n a P) (hnil : ∀ lo, Q lo lo []) (h : Adjoins Q P Q) :
    Finds text n (.star a) Q := by
  -- the matches that have been found so far, with those that follow
  have hmore (i : Nat) (hi : i ≤ n) : ∀ {lo c d ts us},
      grammar.outcome i .spaced (.more a) c = .done d us → c.On text → lo ≤ c.offset →
        Q lo c.offset ts → Q lo d.offset (ts ++ us) := by
    induction i with
    | zero =>
      intro lo c d ts us ho
      cases ho
    | succ i ih =>
      intro lo c d ts us ho hc hlo hq
      rw [outcome_more] at ho
      obtain ⟨c₁, t₁, hskip, ho⟩ | ⟨-, ho⟩ := Matched.elim_eq_done ho
      · obtain ⟨hc₁, hle₁⟩ := hc.of_skipped hskip
        obtain ⟨c₂, t₂, h₂, ho⟩ | ⟨-, ho⟩ := Matched.elim_eq_done ho
        · obtain ⟨c₃, t₃, h₃, ho⟩ | ⟨-, ho⟩ := Matched.elim_eq_done ho
          · cases ho
            obtain ⟨hc₂, hle₂⟩ := hc₁.of_outcome h₂
            rw [← List.append_assoc]
            exact ih (by omega) h₃ hc₂ (by omega) (h hq (ha i (by omega) h₂ hc₁) hlo hle₁ hle₂)
          · cases ho
        · cases ho
          rwa [List.append_nil]
      · cases ho
  intro i hi c d ts ho hc
  cases i with
  | zero => cases ho
  | succ i =>
    rw [outcome_star] at ho
    obtain ⟨c₁, t₁, h₁, ho⟩ | ⟨-, ho⟩ := Matched.elim_eq_done ho
    · obtain ⟨c₂, t₂, h₂, ho⟩ | ⟨-, ho⟩ := Matched.elim_eq_done ho
      · cases ho
        obtain ⟨hc₁, hle₁⟩ := hc.of_outcome h₁
        exact hmore i (by omega) h₂ hc₁ hle₁ (h (hnil _) (ha i (by omega) h₁ hc)
          (Nat.le_refl _) (Nat.le_refl _) hle₁)
      · cases ho
    · cases ho
      exact hnil _

theorem node {r : Rule} (hr : isToken r = false) (h : Finds text n (body r) P)
    (hPQ : ∀ {lo hi ts}, P lo hi ts → Span.In text lo hi ⟨lo, hi⟩ → Q lo hi [.node r ⟨lo, hi⟩ ts]) :
    Finds text (n + 1) (.rule r) Q := by
  intro i hi c d ts ho hc
  cases i with
  | zero => cases ho
  | succ i =>
    rw [outcome_node _ _ _ hr] at ho
    obtain ⟨c₁, t₁, h₁, ho⟩ | ⟨-, ho⟩ := Matched.elim_eq_done ho
    · cases ho
      obtain ⟨hd, hle⟩ := hc.of_outcome h₁
      exact hPQ (h i (by omega) h₁ hc) (hc.span hd hle)
    · cases ho

/-- A token, with the node that it becomes unless it is the name of a field. -/
theorem token {r : Rule} (hr : isToken r = true) :
    Finds text n (.rule r) fun lo hi ts => ∃ chars, ts = [.leaf r ⟨lo, hi⟩ chars] ∧
      (r ∈ [integer, float, string, ident] →
        Lands text (Node.In text lo hi) (leafNode r ⟨lo, hi⟩ chars)) := by
  intro i hi c d ts ho hc
  cases i with
  | zero => cases ho
  | succ i =>
    rw [outcome_token _ _ _ hr] at ho
    obtain ⟨c₁, t₁, h₁, ho⟩ | ⟨-, ho⟩ := Matched.elim_eq_done ho
    · cases ho
      exact ⟨c.upTo d, rfl, fun hr => leafNode_lands hr hc ⟨i, h₁⟩⟩
    · cases ho

/-- A word, which takes at least one character. -/
theorem word {s : String} (hs : s.toList ≠ []) :
    Finds text n (Pattern.word s) fun lo hi ts => ts = [] ∧ lo < hi := by
  intro i hi c d ts ho hc
  obtain ⟨hrest, rfl⟩ := Takes.of_text ⟨i, ho⟩
  obtain ⟨cs, hr, ho⟩ := passes_of_outcome ho
  obtain rfl := List.append_cancel_right (hr.symm.trans hrest)
  refine ⟨rfl, ?_⟩
  obtain ⟨x, xs, hx⟩ := List.exists_cons_of_ne_nil hs
  have hpos := x.utf8Size_pos
  rw [ho, hx, sizeOfChars, List.map_cons, List.sum_cons]
  omega

end Finds

/-! ## Findings -/

namespace Tree

theorem toItems_append_eq (ts us : List (Tree Rule)) :
    toItems (ts ++ us) = toItems ts >>= fun is => toItems us >>= fun js => pure (is ++ js) := by
  induction ts with
  | nil => simp [toItems]
  | cons t ts ih => simp [toItems, ih]

theorem toNodes_append_eq (ts us : List (Tree Rule)) :
    toNodes (ts ++ us) = toNodes ts >>= fun ns => toNodes us >>= fun ms => pure (ns ++ ms) := by
  induction ts with
  | nil => simp [toNodes]
  | cons t ts ih =>
    by_cases h : ∃ span us, t = .node .finish span us
    · obtain ⟨span, us, rfl⟩ := h
      simpa [toNodes] using ih
    · have h' : ∀ span us, t = .node .finish span us → False := fun span us ht => h ⟨span, us, ht⟩
      rw [List.cons_append, toNodes.eq_3 _ _ h', toNodes.eq_3 _ _ h', ih]
      simp

end Tree

namespace Finding

open Dataflow.Tree

variable {lo lo' mid hi hi' : Nat} {ts us : List (Tree Rule)} {P Q : Finding}

/-- No trees. -/
def Nothing : Finding := fun _ _ ts => ts = []

/-- No trees, but at least one character. -/
def Mark : Finding := fun lo hi ts => ts = [] ∧ lo < hi

/-- Items of an expression. -/
def Parts (text : List Char) (e e' : Bool) : Finding := fun lo hi ts =>
  Lands text (fun items => Item.Path text e lo items e' hi) (toItems ts)

/-- One node. -/
def Single (text : List Char) : Finding := fun lo hi ts =>
  ∃ t, ts = [t] ∧ (∀ span us, t = .node .finish span us → False) ∧
    Lands text (Node.In text lo hi) (toNode t)

/-- Nodes one behind the other. -/
def Rows (text : List Char) : Finding := fun lo hi ts =>
  Lands text (Node.Row text lo hi) (toNodes ts)

/-- Nodes one behind the other, all of them behind the start. -/
def Behind (text : List Char) : Finding := fun lo hi ts => Rows text (lo + 1) hi ts

/-- At least one node, one behind the other. -/
def Several (text : List Char) : Finding := fun lo hi ts =>
  Lands text (fun nodes => Node.Row text lo hi nodes ∧ nodes ≠ []) (toNodes ts)

/-- A finding that holds between offsets further apart, too. -/
def Wide (P : Finding) : Prop := ∀ {lo lo' hi hi' ts}, P lo hi ts → lo' ≤ lo → hi ≤ hi' → P lo' hi' ts

theorem wide_single : Wide (Single text) := fun ⟨t, ht, hf, h⟩ hlo hhi =>
  ⟨t, ht, hf, h.mono fun _ hn => hn.mono hlo hhi⟩

theorem wide_rows : Wide (Rows text) := fun h hlo hhi => Lands.mono h fun _ hn => hn.mono hlo hhi

theorem wide_behind : Wide (Behind text) := fun h hlo hhi =>
  wide_rows h (Nat.add_le_add_right hlo 1) hhi

theorem Wide.nothing_adjoins (hP : Wide P) : Adjoins Nothing P P := by
  rintro lo mid mid' hi ts us rfl h hle hle' -
  exact hP h (hle.trans hle') (Nat.le_refl _)

theorem Wide.adjoins_nothing (hP : Wide P) : Adjoins P Nothing P := by
  rintro lo mid mid' hi ts us h rfl - hle hle'
  rw [List.append_nil]
  exact hP h (Nat.le_refl _) (hle.trans hle')

theorem adjoins_parts {e e' e'' : Bool} : Adjoins (Parts text e e') (Parts text e' e'') (Parts text e e'') := by
  rintro lo mid mid' hi ts us hts hus - hle -
  rw [Parts, toItems_append_eq]
  exact hts.bind fun _ hi => hus.bind fun _ hj => hi.append (hj.mono hle)

theorem parts_nil {e : Bool} (lo : Nat) : Parts text e e lo lo [] := by
  rw [Parts, toItems]
  exact .nil (Nat.le_refl lo)

theorem parts_single {e e' : Bool} {t : Tree Rule}
    (h : Lands text (fun item => Item.Path text e lo [item] e' hi) (toItem t)) :
    Parts text e e' lo hi [t] := by
  rw [Parts, toItems, toItems]
  exact h.bind fun _ h => h

theorem Single.several (h : Single text lo hi ts) : Several text lo hi ts := by
  obtain ⟨t, rfl, hf, ht⟩ := h
  rw [Several, toNodes.eq_3 _ _ hf, toNodes]
  exact ht.bind fun _ hn => ⟨.single hn, by simp⟩

theorem Several.rows (h : Several text lo hi ts) : Rows text lo hi ts := Lands.mono h fun _ hn => hn.1

theorem rows_nil (lo : Nat) : Rows text lo lo [] := by
  rw [Rows, toNodes]
  exact Node.Row.nil

theorem behind_nil (lo : Nat) : Behind text lo lo [] := by
  rw [Behind, Rows, toNodes]
  exact Node.Row.nil

theorem adjoins_mark_single : Adjoins Mark (Single text) (Behind text) := by
  rintro lo mid mid' hi ts us ⟨rfl, hlt⟩ h - hle -
  exact wide_rows h.several.rows (hlt.trans_le hle) (Nat.le_refl _)

theorem adjoins_behind : Adjoins (Behind text) (Behind text) (Behind text) := by
  rintro lo mid mid' hi ts us hts hus hle hle' hle''
  rw [Behind, Rows, toNodes_append_eq]
  exact Lands.bind hts fun _ hn => Lands.bind hus fun _ hm =>
    hn.append hm (by omega) (by omega) (by omega)

theorem adjoins_single_behind : Adjoins (Single text) (Behind text) (Several text) := by
  rintro lo mid mid' hi ts us hts hus hle hle' hle''
  rw [Several, toNodes_append_eq]
  exact Lands.bind hts.several fun _ hn => Lands.bind hus fun _ hm =>
    ⟨hn.1.append hm (by omega) (by omega) (by omega), by simp [hn.2]⟩

end Finding

/-! ## Expressions -/

section Rules

open Finding Dataflow.Tree

variable {n : Nat}

theorem finds_mark {s : String} (hs : s.toList ≠ []) : Finds text n (word s) Mark := .word hs

theorem finds_nothing {s : String} (hs : s.toList ≠ []) : Finds text n (word s) Nothing :=
  (finds_mark hs).mono fun h _ => h.1

theorem Finding.Wide.between {p : Pattern Rule} {P : Finding} (hP : Wide P) (hp : Finds text n p P)
    {s s' : String} (hs : s.toList ≠ []) (hs' : s'.toList ≠ []) :
    Finds text n (seqs [word s, p, word s']) P :=
  .seq (finds_nothing hs) (.seq hp (finds_nothing hs') hP.adjoins_nothing) hP.nothing_adjoins

/-- Nodes with marks between them. -/
theorem finds_separated {sep a : Pattern Rule} (hs : Finds text n sep Mark)
    (ha : Finds text n a (Single text)) : Finds text n (separated sep a) (Several text) :=
  .seq ha (.star (.seq hs ha adjoins_mark_single) behind_nil adjoins_behind) adjoins_single_behind

theorem finds_opt_rows {p : Pattern Rule} (h : Finds text n p (Several text)) :
    Finds text n (opt p) (Rows text) := .alt (h.mono fun h _ => h.rows) (.empty rows_nil)

/-- An operator. -/
theorem finds_operator {r : Rule} (hr : r.operatorText ≠ "") {e : Bool}
    (h : ∀ {lo hi span ts}, span.In text lo hi →
      Lands text (fun item => Item.Path text e lo [item] true hi) (toItem (.node r span ts))) :
    Finds text (n + 1) (.rule r) (Parts text e true) :=
  .node (Gauge.isToken_operator hr) (P := fun _ _ _ => True) (fun _ _ _ _ _ _ _ => trivial)
    fun _ hspan => parts_single (h hspan)

theorem finds_unary : Finds text (n + 1) unary (Parts text true true) := by
  refine .alt (finds_operator (by decide) fun h => ?_) (finds_operator (by decide) fun h => ?_)
  all_goals
    rw [toItem]
    exact .unary h (.nil (Nat.le_refl _))

theorem finds_binary : Finds text (n + 1) binary (Parts text false true) := by
  refine .alts (by simp) fun p hp => ?_
  obtain ⟨r, hr, rfl⟩ := List.mem_map.mp hp
  have hop : r.operatorText ≠ "" := by fin_cases hr <;> decide
  refine finds_operator hop fun {lo hi span ts} h => ?_
  have hitem : toItem (.node r span ts) = .ok (.binary r.operatorText r.strength span) := by
    fin_cases hr <;> rw [toItem] <;> first | rfl | simp
  rw [hitem]
  exact Item.Path.binary h (.nil (Nat.le_refl _))

theorem finds_fieldOp : Finds text (n + 1) (.rule .fieldOp) (Parts text false false) := by
  have hname : Finds text n (.rule .field) fun _ _ ts => ∃ span chars, ts = [.leaf .field span chars] :=
    (Finds.token rfl).mono fun ⟨chars, h, _⟩ _ => ⟨_, chars, h⟩
  refine .node (r := .fieldOp) rfl (.seq (finds_nothing (by decide)) hname
    (T := fun _ _ ts => ∃ span chars, ts = [.leaf .field span chars]) ?_) ?_
  · rintro lo mid mid' hi ts us rfl h - - -
    exact h
  · rintro lo hi ts ⟨span, chars, rfl⟩ hspan
    refine parts_single ?_
    rw [toItem]
    exact .field hspan.le hspan.stop (.nil (Nat.le_refl _))

theorem finds_leaf {r : Rule} (hr : r ∈ [float, integer, string, ident]) :
    Finds text n (.rule r) (Parts text true false) := by
  have htoken : isToken r = true := by fin_cases hr <;> rfl
  refine (Finds.token htoken).mono ?_
  rintro lo hi ts ⟨chars, rfl, h⟩ -
  refine parts_single ?_
  rw [toItem]
  exact (h (by fin_cases hr <;> simp)).bind fun _ hn => .operand hn (.nil (Nat.le_refl _))

/-- A match of an expression, with its tree. -/
def Finding.Expression (text : List Char) : Finding := fun lo hi ts =>
  ∃ us, ts = [.node .expression ⟨lo, hi⟩ us] ∧ Span.In text lo hi ⟨lo, hi⟩ ∧
    Lands text (Node.In text lo hi) (toItems us >>= expressionOf ⟨lo, hi⟩)

theorem Finding.Expression.single {lo hi : Nat} {ts : List (Tree Rule)} (h : Expression text lo hi ts) :
    Single text lo hi ts := by
  obtain ⟨us, rfl, -, h⟩ := h
  refine ⟨_, rfl, by simp, ?_⟩
  rw [toNode]
  exact h

section Expression

variable (h : Finds text n (.rule .expression) (Single text))
include h

theorem finds_grouped : Finds text (n + 1) (.rule .grouped) (Parts text true false) := by
  refine .node (r := .grouped) rfl (wide_single.between h (by decide) (by decide)) ?_
  rintro lo hi ts ⟨t, rfl, hf, ht⟩ -
  refine parts_single ?_
  rw [toItem, toNodes.eq_3 _ _ hf, toNodes]
  have hone : Lands text (fun nodes => ∃ node, nodes = [node] ∧ node.In text lo hi)
      (do return (← toNode t) :: (← pure [])) := Lands.bind ht fun node hn => ⟨node, rfl, hn⟩
  refine hone.bind fun nodes hnodes => ?_
  obtain ⟨node, rfl, hn⟩ := hnodes
  exact .operand hn (.nil (Nat.le_refl _))

theorem finds_callOp : Finds text (n + 1) (.rule .callOp) (Parts text false false) := by
  refine .node (r := .callOp) rfl (wide_rows.between (finds_opt_rows (finds_separated
    (finds_mark (by decide)) h)) (by decide) (by decide)) ?_
  intro lo hi ts hts hspan
  refine parts_single ?_
  rw [toItem]
  exact Lands.bind hts fun _ hn => .call hn hspan.le hspan.stop (.nil (Nat.le_refl _))

theorem finds_primary : Finds text n primary (Parts text true false) := by
  refine .alts (by simp) fun p hp => ?_
  have hgrouped := (finds_grouped h).le n.le_succ
  fin_cases hp
  · exact finds_leaf (by simp)
  · exact finds_leaf (by simp)
  · exact finds_leaf (by simp)
  · exact hgrouped
  · exact finds_leaf (by simp)

theorem finds_items : Finds text n (body .expression) (Parts text true false) := by
  have hunary : Finds text n (.star unary) (Parts text true true) :=
    .star (finds_unary.le n.le_succ) parts_nil adjoins_parts
  have hsuffix : Finds text n (.star suffix) (Parts text false false) :=
    .star (.alt ((finds_callOp h).le n.le_succ) (finds_fieldOp.le n.le_succ)) parts_nil adjoins_parts
  have hoperand : Finds text n (seqs [.star unary, primary, .star suffix]) (Parts text true false) :=
    .seq hunary (.seq (finds_primary h) hsuffix adjoins_parts) adjoins_parts
  have hmore : Finds text n (.star (seqs [binary, .star unary, primary, .star suffix]))
      (Parts text false false) :=
    .star (.seq (finds_binary.le n.le_succ) hoperand adjoins_parts) parts_nil adjoins_parts
  exact .seq hunary (.seq (finds_primary h) (.seq hsuffix hmore adjoins_parts) adjoins_parts)
    adjoins_parts

end Expression

/-- An expression is read, or there is an error in its text. -/
theorem finds_expression : Finds text n (.rule .expression) (Expression text) := by
  induction n with
  | zero => exact .zero
  | succ n ih =>
    refine .node (r := .expression) rfl (finds_items (ih.mono fun h _ => h.single)) ?_
    intro lo hi ts h hspan
    exact ⟨ts, rfl, hspan, Lands.bind h fun items hitems => expressionOf_lands hitems _⟩

/-! ## Statements -/

theorem finds_ident : Finds text n (.rule .ident) (Single text) := by
  refine (Finds.token rfl).mono ?_
  rintro lo hi ts ⟨chars, rfl, h⟩ -
  refine ⟨_, rfl, by simp, ?_⟩
  rw [toNode]
  exact h (by simp)

theorem finds_assignment : Finds text (n + 1) (.rule .assignment) (Single text) := by
  have hexpression : Finds text n (.rule .expression) (Single text) :=
    finds_expression.mono fun h _ => h.single
  have hnames : Finds text n (.star (seq (word ",") (.rule .ident))) (Behind text) :=
    .star (.seq (finds_mark (by decide)) finds_ident adjoins_mark_single) behind_nil adjoins_behind
  have hvalue : Finds text n (seqs [.absent (word "=="), word "=", .rule .expression]) (Behind text) :=
    .seq (.absent fun _ => rfl) (.seq (finds_mark (by decide)) hexpression adjoins_mark_single)
      wide_behind.nothing_adjoins
  refine .node (r := .assignment) rfl (.seq finds_ident (.seq hnames hvalue adjoins_behind)
    adjoins_single_behind) ?_
  intro lo hi ts h hspan
  refine ⟨_, rfl, by simp, ?_⟩
  rw [toNode]
  refine Lands.bind h fun nodes hnodes => ?_
  obtain ⟨hrow, hne⟩ := hnodes
  rw [List.getLast?_eq_some_getLast hne]
  exact Node.in_assign hspan (hrow.forall_in _ (List.getLast_mem hne)) _

/-- The body of a function: a block, or an expression. -/
def Finding.Body (text : List Char) : Finding := fun lo hi ts =>
  (∃ inner us, ts = [.node .block inner us] ∧ inner.In text lo hi ∧
    Lands text (Node.Row text inner.start inner.stop) (toNodes us)) ∨
  ∃ inner us, ts = [.node .expression inner us] ∧ inner.In text lo hi ∧
    Lands text (Node.In text inner.start inner.stop) (toItems us >>= expressionOf inner)

theorem wide_body : Wide (Body text) := by
  rintro lo lo' hi hi' ts (⟨inner, us, ht, hi, h⟩ | ⟨inner, us, ht, hi, h⟩) hlo hhi
  · exact .inl ⟨inner, us, ht, hi.mono hlo hhi, h⟩
  · exact .inr ⟨inner, us, ht, hi.mono hlo hhi, h⟩

/-- The parameters of a function and its body. -/
def Finding.Rest (text : List Char) : Finding := fun lo hi ts =>
  ∃ span params inner, ts = .node .params span params :: inner ∧ Body text lo hi inner

theorem wide_rest : Wide (Rest text) := fun ⟨span, ps, inner, ht, h⟩ hlo hhi =>
  ⟨span, ps, inner, ht, wide_body h hlo hhi⟩

/-- The name of a function, its parameters and its body. -/
def Finding.Whole (text : List Char) : Finding := fun lo hi ts =>
  ∃ span name rest, ts = .leaf .ident span name :: rest ∧ Rest text lo hi rest

theorem wide_whole : Wide (Whole text) := fun ⟨span, name, rest, ht, h⟩ hlo hhi =>
  ⟨span, name, rest, ht, wide_rest h hlo hhi⟩

theorem Finding.Whole.single {lo hi : Nat} {ts : List (Tree Rule)} (h : Whole text lo hi ts)
    (hspan : Span.In text lo hi ⟨lo, hi⟩) : Single text lo hi [.node .function ⟨lo, hi⟩ ts] := by
  obtain ⟨-, name, -, rfl, -, params, -, rfl, ⟨inner, us, rfl, hin, h⟩ | ⟨inner, us, rfl, hin, h⟩⟩ := h
  · refine ⟨_, rfl, by simp, ?_⟩
    rw [toNode]
    exact Lands.bind h fun nodes hrow => Node.in_function hspan (Node.in_list hin hrow) _ _
  · refine ⟨_, rfl, by simp, ?_⟩
    rw [toNode, ← bind_assoc]
    exact Lands.bind h fun value hv => Node.in_function hspan (Node.in_list hin (.single hv)) _ _

theorem finds_function (h : Finds text n (.rule .block) (Body text)) :
    Finds text (n + 1) (.rule .function) (Single text) := by
  have hbody : Finds text n (alt (.rule .block) (.rule .expression)) (Body text) :=
    .alt h (finds_expression.mono fun ⟨us, ht, hspan, h⟩ _ => .inr ⟨_, us, ht, hspan, h⟩)
  have hparams : Finds text n (.rule .params) fun _ _ ts => ∃ span params, ts = [.node .params span params] := by
    cases n with
    | zero => exact .zero
    | succ n =>
      exact .node (r := .params) rfl (P := fun _ _ _ => True) (fun _ _ _ _ _ _ _ => trivial)
        fun _ _ => ⟨_, _, rfl⟩
  have hname : Finds text n (.rule .ident) fun _ _ ts => ∃ span name, ts = [.leaf .ident span name] :=
    (Finds.token rfl).mono fun ⟨chars, h, _⟩ _ => ⟨_, chars, h⟩
  have hrest : Finds text n (seqs [.rule .params, word ")", word ":",
      alt (.rule .block) (.rule .expression)]) (Rest text) := by
    refine .seq hparams (.seq (finds_nothing (by decide)) (.seq (finds_nothing (by decide)) hbody
      wide_body.nothing_adjoins) wide_body.nothing_adjoins) ?_
    rintro lo mid mid' hi ts us ⟨span, params, rfl⟩ hbody hle hle' -
    exact ⟨span, params, us, rfl, wide_body hbody (hle.trans hle') (Nat.le_refl _)⟩
  refine .node (r := .function) rfl (.seq (finds_nothing (by decide)) (.seq hname
    (.seq (finds_nothing (by decide)) hrest wide_rest.nothing_adjoins) ?_) wide_whole.nothing_adjoins)
    fun h hspan => h.single hspan
  rintro lo mid mid' hi ts us ⟨span, name, rfl⟩ hrest hle hle' -
  exact ⟨span, name, us, rfl, wide_rest hrest (hle.trans hle') (Nat.le_refl _)⟩

theorem finds_separator : Finds text n separator Mark :=
  .alt (.alts (by simp) fun p hp => by fin_cases hp <;> exact finds_mark (by decide))
    (finds_mark (by decide))

theorem finds_statements (h : Finds text n (.rule .function) (Single text)) :
    Finds text n statements (Rows text) := by
  have hstatement : Finds text n statement (Single text) := by
    refine .alts (by simp) fun p hp => ?_
    fin_cases hp
    · exact h
    · exact finds_assignment.le n.le_succ
    · exact finds_expression.mono fun h _ => h.single
  have hmargin : Finds text n (.star separator) Nothing := by
    refine .star finds_separator (fun _ => rfl) ?_
    rintro lo mid mid' hi ts us rfl ⟨rfl, -⟩ - - -
    rfl
  have hseparators : Finds text n (plus separator) Mark := by
    refine .seq finds_separator hmargin ?_
    rintro lo mid mid' hi ts us ⟨rfl, hlt⟩ rfl - hle hle'
    exact ⟨rfl, by omega⟩
  exact .seq hmargin (.seq (finds_opt_rows (finds_separated hseparators hstatement)) hmargin
    wide_rows.adjoins_nothing) wide_rows.nothing_adjoins

theorem finds_block : Finds text n (.rule .block) (Body text) := by
  induction n with
  | zero => exact .zero
  | succ n ih =>
    refine .node (r := .block) rfl (wide_rows.between
      (finds_statements ((finds_function ih).le n.le_succ)) (by decide) (by decide)) ?_
    exact fun h hspan => .inl ⟨_, _, rfl, hspan, h⟩

/-- The statements of a program are read, or there is an error in the text. -/
theorem finds_program : Finds text (n + 1) (.rule .program) fun lo hi ts =>
    ∃ us, ts = [.node .program ⟨lo, hi⟩ us] ∧ Rows text lo hi us := by
  have hstatements : Finds text n statements (Rows text) :=
    finds_statements ((finds_function finds_block).le n.le_succ)
  have hfinish : Finds text n (.rule .finish) fun _ _ ts => ∃ span us, ts = [.node .finish span us] := by
    cases n with
    | zero => exact .zero
    | succ n =>
      exact .node (r := .finish) rfl (P := fun _ _ _ => True) (.finish fun _ => trivial)
        fun _ _ => ⟨_, _, rfl⟩
  have hend : Finds text n (seq statements (.rule .finish)) (Rows text) := by
    refine .seq hstatements hfinish ?_
    rintro lo mid mid' hi ts us h ⟨span, vs, rfl⟩ - hle hle'
    rw [Rows, toNodes_append_eq, toNodes, toNodes]
    refine Lands.bind h fun nodes hrow => ?_
    show Node.Row text lo hi (nodes ++ [])
    rw [List.append_nil]
    exact hrow.mono (Nat.le_refl _) (hle.trans hle')
  exact .node (r := .program) rfl (.seq (.empty fun _ => rfl) hend wide_rows.nothing_adjoins)
    fun h _ => ⟨_, rfl, h⟩

end Rules

/-! ## Programs -/

/-- A tree that is well located in a text: its root spans the text, the spans of all nodes are of whole
characters, the text of a name is the name, and statements come one behind the other. -/
structure Node.Located (source : String) (root : Node) : Prop where
  whole : root.span = ⟨0, source.utf8ByteSize⟩
  spans : ∀ t ∈ root.subtrees, t.span.start ≤ t.span.stop ∧ t.span.stop ≤ source.utf8ByteSize ∧
    Boundary source.toList t.span.start ∧ Boundary source.toList t.span.stop
  names : ∀ span name, .ident span name ∈ root.subtrees → span.slice source = name
  statements : ∀ span items, .list span items ∈ root.subtrees →
    items.Pairwise fun a b => a.span.stop < b.span.start

/-- An error that is well located in a text, and says what is wrong with it. -/
structure SourceError.Located (source : String) (e : SourceError) : Prop where
  start_le : e.span.start ≤ e.span.stop
  stop_le : e.span.stop ≤ source.utf8ByteSize
  start : Boundary source.toList e.span.start
  stop : Boundary source.toList e.span.stop
  cause : (∃ expected, e.cause = .unexpected expected) ∨ (∃ text, e.cause = .badNumber text) ∨
    (∃ c, e.cause = .badEscape c) ∨ ∃ depth limit, e.cause = .tooDeep depth limit

theorem SourceError.OnText.located {source : String} {e : SourceError} (h : e.OnText source.toList) :
    e.Located source := by
  refine ⟨h.span.start_le, ?_, h.span.start, h.span.stop, ?_⟩
  · rw [← sizeOfChars_toList]
    exact h.span.le_hi
  · have hwell := h.wellFormed
    cases hc : e.cause with
    | malformed what => exact absurd hc (hwell what)
    | _ => simp

theorem Node.In.located {source : String} {root : Node} (h : root.In source.toList 0 source.utf8ByteSize)
    (hroot : root.span = ⟨0, source.utf8ByteSize⟩) : root.Located source := by
  refine ⟨hroot, fun t ht => ?_, fun span name ht => ?_, fun span items ht => (h.subtrees _ ht).2⟩
  · have hspan := (h.subtrees t ht).1
    rw [sizeOfChars_toList] at hspan
    exact ⟨hspan.start_le, hspan.le_hi, hspan.start, hspan.stop⟩
  · have hname := (h.subtrees _ ht).2
    rwa [String.ofList_toList] at hname

/-- What goes too deep is one character of the text. -/
theorem Nesting.checkFrom_lands {limit : Nat} {s : Nesting} {offset : Nat} {cs : List Char}
    (h : Cursor.On text ⟨offset, cs⟩) : Lands text (fun _ => True) (s.checkFrom limit offset cs) := by
  induction cs generalizing s offset with
  | nil => trivial
  | cons c cs ih =>
    rw [checkFrom]
    split
    · exact ⟨(h.span h.next (Nat.le_add_right _ _)).all, by simp⟩
    · exact ih h.next

namespace Node

/-- The list of the statements spans the text. -/
theorem located_list {source : String} {hi : Nat} {nodes : List Node}
    (h : Row source.toList 0 hi nodes) : (list ⟨0, source.utf8ByteSize⟩ nodes).Located source := by
  have hspan : Span.In source.toList 0 source.utf8ByteSize ⟨0, source.utf8ByteSize⟩ := by
    rw [← sizeOfChars_toList]
    exact ⟨Nat.le_refl _, Nat.zero_le _, Nat.le_refl _, .zero _, .size _⟩
  exact (in_list hspan h).located rfl

theorem parseWithin_lands (limit : Nat) (source : String) :
    Lands source.toList (fun root => root.Located source) (parseWithin limit source) := by
  have hstart := Cursor.On.start source.toList
  rw [parseWithin]
  refine (Nesting.checkFrom_lands hstart).bind fun _ _ => ?_
  have hne : (grammar.start .program source.toList).1 ≠ .exhausted :=
    grammarBounds.run_ne_exhausted rfl (by
      show 24 + 32 * source.toList.length ≤ 1024 * (source.toList.length + 1)
      omega)
  have hfurthest : (grammar.start .program source.toList).2.On source.toList :=
    furthest_boundary hstart (Boundary.zero _)
  rcases hrun : grammar.start .program source.toList with ⟨outcome, attempts⟩
  rw [hrun] at hne hfurthest
  cases outcome with
  | exhausted => exact absurd rfl hne
  | failed =>
    exact ⟨⟨Nat.zero_le _, Nat.le_refl _, hfurthest.le_size, hfurthest, hfurthest⟩, by simp⟩
  | done d ts =>
    have houtcome : grammar.outcome (1024 * source.toList.length + 1023 + 1) .spaced (.rule .program)
        (.start source.toList) = .done d ts := by
      rw [← fst_run .none]
      exact congrArg Prod.fst hrun
    obtain ⟨us, rfl, hrows⟩ := finds_program _ (Nat.le_refl _) houtcome hstart
    exact hrows.bind fun nodes hrow => located_list hrow

/-- **Whatever reading a text ends with is well located**: a tree of the whole text, or an error in the
text. -/
theorem parseWithin_located (limit : Nat) (source : String) :
    match parseWithin limit source with
    | .ok root => root.Located source
    | .error e => e.Located source := by
  have h := parseWithin_lands limit source
  cases hp : parseWithin limit source with
  | ok root =>
    rw [hp] at h
    exact h
  | error e =>
    rw [hp] at h
    exact SourceError.OnText.located h

end Node

end Dataflow
