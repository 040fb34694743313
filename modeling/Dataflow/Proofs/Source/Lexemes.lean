import Dataflow.Proofs.Grammar.Reads
import Dataflow.Proofs.Source.Climb

/-!
# Tokens

Every token is read with its text, up to the start of the next one, and the ordered choices of the
grammar refuse what comes before the right one.

* `Gap`: what stands between a token and what follows it;
* `Spells`: a text of tokens, followed by another text;
* `reads_ident`, `reads_integer`, `reads_string`, `reads_field`, `reads_binary`: the tokens.
-/

namespace Dataflow

open Grammar Pattern Rule

/-! ## Between tokens -/

/-- No blanks and no comment at the start of a text. -/
def Clear (cs : List Char) : Prop := ∀ x ∈ cs.head?, isBlank x = false ∧ x ≠ '#'

/-- A text at whose start every token has ended. -/
def Stops (cs : List Char) : Prop := ∀ x ∈ cs.head?, isBlank x = true ∨ x = '\n'

/-- Blanks between a token and what follows it. They can be missing at the end of a line. -/
structure Gap (b cs : List Char) : Prop where
  blank : ∀ x ∈ b, isBlank x = true
  stops : Stops (b ++ cs)
  clear : Clear cs

/-- A text of tokens with blanks behind each of them, followed by another text. -/
inductive Spells : List (List Char) → List Char → List Char → Prop where
  | nil (r : List Char) : Spells [] r r
  | cons {t b cs r : List Char} {ts : List (List Char)} (hb : Gap b cs) (h : Spells ts r cs) :
    Spells (t :: ts) r (t ++ (b ++ cs))

theorem Spells.uncons {t : List Char} {ts : List (List Char)} {r cs : List Char}
    (h : Spells (t :: ts) r cs) : ∃ b mid, cs = t ++ (b ++ mid) ∧ Gap b mid ∧ Spells ts r mid := by
  cases h with
  | cons hb h => exact ⟨_, _, rfl, hb, h⟩

theorem Spells.single {t r cs : List Char} (h : Spells [t] r cs) :
    ∃ b, cs = t ++ (b ++ r) ∧ Gap b r := by
  obtain ⟨b, mid, rfl, hb, h⟩ := h.uncons
  cases h
  exact ⟨b, rfl, hb⟩

theorem Spells.append {ts ts' : List (List Char)} {r cs : List Char} (h : Spells (ts ++ ts') r cs) :
    ∃ mid, Spells ts mid cs ∧ Spells ts' r mid := by
  induction ts generalizing cs with
  | nil => exact ⟨cs, .nil _, h⟩
  | cons t ts ih =>
    cases h with
    | cons hb h =>
      obtain ⟨mid, h₁, h₂⟩ := ih h
      exact ⟨mid, .cons hb h₁, h₂⟩

/-- There is no comment. -/
theorem Clear.takes_comments {cs : List Char} (hc : Clear cs) (o : Nat) :
    grammar.Takes .tight (.star (.seq comment (.star (.satisfy isBlank)))) ⟨o, cs⟩ ⟨o, cs⟩ [] := by
  refine Fails.star (fails_of_shuns (n := 3) ?_)
  cases cs with
  | nil => rfl
  | cons x xs => simpa [shuns, comment, word] using (hc x rfl).2

/-- Blanks are skipped. -/
theorem skips_blanks {b cs : List Char} (hb : ∀ x ∈ b, isBlank x = true) (hc : Clear cs) (o : Nat) :
    ∃ o', grammar.Skips .spaced ⟨o, b ++ cs⟩ ⟨o', cs⟩ := by
  obtain ⟨o', h⟩ := takes_star_satisfy (g := grammar) (o := o) hb fun x hx => (hc x hx).1
  exact ⟨o', [], h.seq (skips_tight _) (hc.takes_comments o')⟩

theorem Clear.rests {cs : List Char} (hc : Clear cs) : grammar.Rests cs := by
  intro o
  have h : grammar.Takes .tight (.star (.satisfy isBlank)) ⟨o, cs⟩ ⟨o, cs⟩ [] :=
    Fails.star (fails_satisfy fun x hx => (hc x hx).1)
  exact ⟨[], h.seq (skips_tight _) (hc.takes_comments o)⟩

theorem Gap.skips {b cs : List Char} (h : Gap b cs) (o : Nat) :
    ∃ o', grammar.Skips .spaced ⟨o, b ++ cs⟩ ⟨o', cs⟩ := skips_blanks h.blank h.clear o

/-! ## Words -/

/-- A text is read, and so are the blanks behind it. -/
theorem reads_blanks {t b cs : List Char} (hb : ∀ x ∈ b, isBlank x = true) (hc : Clear cs) :
    grammar.Reads (.text t) (t ++ (b ++ cs)) cs (· = []) := by
  refine ⟨hc.rests, fun o => ?_⟩
  obtain ⟨o', hs⟩ := skips_blanks hb hc (o + sizeOfChars t)
  exact ⟨_, o', [], takes_text (Cursor.after?_append o t (b ++ cs)), hs, rfl⟩

/-- A word is read. -/
theorem reads_text {t b cs : List Char} (h : Gap b cs) :
    grammar.Reads (.text t) (t ++ (b ++ cs)) cs (· = []) := reads_blanks h.blank h.clear

/-- A word is read before something else. -/
theorem reads_text_seq {t b cs ds : List Char} {p : Pattern Rule} {P : List (Tree Rule) → Prop}
    (hb : Gap b cs) (h : grammar.Reads p cs ds P) :
    grammar.Reads (.seq (.text t) p) (t ++ (b ++ cs)) ds P :=
  (reads_text hb).seq h fun s t hs ht => by rwa [hs]

/-- A character that can be in a word. -/
def isSolid (c : Char) : Bool := !isBlank c && c != '\n'

theorem Stops.head_ne {cs : List Char} (h : Stops cs) {x : Char} (hx : isSolid x = true) :
    cs.head? ≠ some x := by
  intro hc
  obtain hb | rfl := h x hc
  · simp [isSolid, hb] at hx
  · simp [isSolid] at hx

/-- A word that is not the start of a token is not read there. -/
theorem fails_word {m : Mode} {w t cs : List Char} (hw : w.all isSolid = true)
    (ht : w.isPrefixOf t = false) (hs : Stops cs) (o : Nat) :
    grammar.Fails m (.text w) ⟨o, t ++ cs⟩ := by
  refine fails_text ?_
  induction w generalizing t o with
  | nil => simp at ht
  | cons x xs ih =>
    rw [List.all_cons, Bool.and_eq_true] at hw
    cases t with
    | nil =>
      rw [List.nil_append]
      have := hs.head_ne hw.1
      cases cs with
      | nil => rfl
      | cons y ys => exact if_neg fun h => this (congrArg some h.symm)
    | cons y ys =>
      rw [List.cons_append, Cursor.after?]
      dsimp only
      split
      · rename_i hxy
        refine ih hw.2 ?_ _
        simpa [List.isPrefixOf, hxy] using ht
      · rfl

/-- What is checked for each of some characters holds of all of them. -/
theorem forall_mem_chars {P : Char → Prop} [DecidablePred P] {cs : List Char}
    (h : cs.all (fun x => decide (P x)) = true) : ∀ x ∈ cs, P x := by simpa using h

theorem Stops.none {cs : List Char} (h : Stops cs) {f : Char → Bool}
    (hf : ∀ x ∈ [' ', '\t', '\r', '\n'], f x = false) : ∀ x ∈ cs.head?, f x = false := by
  intro x hx
  refine hf x ?_
  obtain hb | rfl := h x hx
  · simp only [isBlank, Bool.or_eq_true, beq_iff_eq] at hb
    obtain (rfl | rfl) | rfl := hb <;> simp
  · simp

/-- What a token is refused by, if its first character is enough to say so. -/
theorem refuses_first {p : Pattern Rule} (n : Nat) {x : Char} {cs : List Char}
    (h : grammar.shuns n (some x) p = true) : grammar.Refuses p (x :: cs) :=
  refuses_of_shuns n h

/-! ## Names -/

theorem exists_of_isName {s : String} (h : isName s = true) : ∃ x xs, s.toList = x :: xs ∧
    startsName x = true ∧ (∀ y ∈ xs, continuesName y = true) ∧ s.toList ≠ ['f', 'n'] := by
  rw [isName] at h
  split at h
  · cases h
  · rename_i x xs hs
    simp only [Bool.and_eq_true, List.all_eq_true, bne_iff_ne] at h
    refine ⟨x, xs, hs, h.1.1, h.1.2, fun hfn => h.2 ?_⟩
    rw [← String.ofList_toList (s := s), hfn]

/-- A name is taken up to its end. -/
theorem takes_name {x : Char} {xs cs : List Char} (hx : startsName x = true)
    (hxs : ∀ y ∈ xs, continuesName y = true) (hs : Stops cs) (o : Nat) :
    ∃ o', grammar.Takes .tight name ⟨o, x :: xs ++ cs⟩ ⟨o', cs⟩ [] := by
  obtain ⟨o', h⟩ := takes_star_satisfy (g := grammar) (o := o + x.utf8Size) hxs
    (hs.none (forall_mem_chars (by decide)))
  exact ⟨o', (takes_satisfy hx).seq (skips_tight _) h⟩

/-- A name is not the keyword. -/
theorem fails_keyword {x : Char} {xs cs : List Char} (hxs : ∀ y ∈ xs, continuesName y = true)
    (hne : x :: xs ≠ ['f', 'n']) (hs : Stops cs) (o : Nat) :
    grammar.Fails .tight keyword ⟨o, x :: xs ++ cs⟩ := by
  cases hp : ['f', 'n'].isPrefixOf (x :: xs) with
  | false => exact (fails_word (by decide) hp hs o).seq_left
  | true =>
    obtain ⟨ys, hys⟩ := List.isPrefixOf_iff_prefix.mp hp
    cases ys with
    | nil => exact absurd hys.symm hne
    | cons y ys =>
      -- the name goes on behind the letters of the keyword
      cases hys
      have hword : grammar.Takes .tight (word "fn") ⟨o, 'f' :: 'n' :: y :: ys ++ cs⟩
          ⟨o + 1 + 1, y :: ys ++ cs⟩ [] := takes_text rfl
      refine hword.seq_fails (skips_tight _) ?_
      exact Takes.absent (takes_satisfy (hxs y (by simp)))

theorem reads_ident {s : String} {b cs : List Char} (hs : isName s = true) (hb : Gap b cs) :
    grammar.Reads (.rule .ident) (s.toList ++ (b ++ cs)) cs
      fun ts => ∃ span, ts = [.leaf .ident span s.toList] := by
  obtain ⟨x, xs, hx, hstart, hrest, hne⟩ := exists_of_isName hs
  refine Reads.token rfl (fun o => ?_) hb.skips hb.clear.rests
  rw [hx] at hne ⊢
  obtain ⟨o', h⟩ := takes_name hstart hrest hb.stops o
  exact ⟨o', [], (fails_keyword hrest hne hb.stops o).absent.seq (skips_tight _) h⟩

theorem reads_field {s : String} {b cs : List Char} (hs : isName s = true) (hb : Gap b cs) :
    grammar.Reads (.rule .field) (s.toList ++ (b ++ cs)) cs
      fun ts => ∃ span, ts = [.leaf .field span s.toList] := by
  obtain ⟨x, xs, hx, hstart, hrest, -⟩ := exists_of_isName hs
  refine Reads.token rfl (fun o => ?_) hb.skips hb.clear.rests
  rw [hx]
  obtain ⟨o', h⟩ := takes_name hstart hrest hb.stops o
  exact ⟨o', [], h.alt_left⟩

theorem refuses_ident {cs : List Char} (h : ∀ x ∈ cs.head?, startsName x = false) :
    grammar.Refuses (.rule .ident) cs := by
  intro o
  refine Fails.token rfl ?_
  have hkeyword : grammar.Fails .tight keyword ⟨o, cs⟩ := by
    refine fails_of_shuns (n := 3) ?_
    cases cs with
    | nil => rfl
    | cons x xs =>
      have hx : x ≠ 'f' := by
        rintro rfl
        exact absurd (h 'f' rfl) (by decide)
      simpa [shuns, keyword, word] using hx
  exact hkeyword.absent.seq_fails (skips_tight _) (fails_satisfy h).seq_left

/-! ## Numerals -/

theorem takes_digits {x : Char} {xs cs : List Char} (hx : ∀ y ∈ x :: xs, Rule.isDigit y = true)
    (hs : Stops cs) (o : Nat) : ∃ o', grammar.Takes .tight digits ⟨o, x :: xs ++ cs⟩ ⟨o', cs⟩ [] := by
  obtain ⟨o', h⟩ := takes_star_satisfy (g := grammar) (o := o + x.utf8Size)
    (fun y hy => hx y (List.mem_cons_of_mem _ hy)) (hs.none (forall_mem_chars (by decide)))
  exact ⟨o', (takes_satisfy (hx x (List.mem_cons_self ..))).seq (skips_tight _) h⟩

theorem reads_integer {x : Char} {xs b cs : List Char} (hx : ∀ y ∈ x :: xs, Rule.isDigit y = true)
    (hb : Gap b cs) : grammar.Reads (.rule .integer) (x :: xs ++ (b ++ cs)) cs
      fun ts => ∃ span, ts = [.leaf .integer span (x :: xs)] :=
  Reads.token rfl (fun o => (takes_digits hx hb.stops o).imp fun _ h => ⟨[], h⟩) hb.skips hb.clear.rests

/-- Digits alone are not a float. -/
theorem refuses_float {x : Char} {xs cs : List Char} (hx : ∀ y ∈ x :: xs, Rule.isDigit y = true)
    (hs : Stops cs) : grammar.Refuses (.rule .float) (x :: xs ++ cs) := by
  intro o
  refine Fails.token rfl ?_
  obtain ⟨o', h⟩ := takes_digits hx hs o
  have hword {w : String} (hw : w.toList.all isSolid = true) (hne : w.toList ≠ []) :
      grammar.Fails .tight (word w) ⟨o', cs⟩ := by
    refine fails_word (t := []) hw ?_ hs o'
    cases hl : w.toList with
    | nil => exact absurd hl hne
    | cons => rfl
  exact h.seq_fails (skips_tight _) (Fails.alt (hword (by decide) (by decide)).seq_left
    (Fails.alt (hword (by decide) (by decide)) (hword (by decide) (by decide))).seq_left)

/-! ## String literals -/

theorem takes_escaped {x : Char} (hx : x ≠ '\r') (o : Nat) (r : List Char) :
    ∃ o', grammar.Takes .tight (.alt plainChar escape) ⟨o, escaped x ++ r⟩ ⟨o', r⟩ [] := by
  -- a backslash opens an escape, and any character ends it
  have hescape (y : Char) :
      ∃ o', grammar.Takes .tight (.alt plainChar escape) ⟨o, ['\\', y] ++ r⟩ ⟨o', r⟩ [] := by
    have hbackslash : grammar.Takes .tight (alts [word "\"", word "\\", lineEnd])
        ⟨o, '\\' :: y :: r⟩ ⟨o + 1, y :: r⟩ [] :=
      (fails_of_shuns (n := 1) rfl).alt_takes (takes_text rfl).alt_left
    have hword : grammar.Takes .tight (word "\\") ⟨o, '\\' :: y :: r⟩ ⟨o + 1, y :: r⟩ [] := takes_text rfl
    exact ⟨_, (Fails.seq_left hbackslash.absent).alt_takes
      (hword.seq (skips_tight _) (takes_satisfy rfl))⟩
  unfold escaped
  split
  · exact hescape 'n'
  · exact hescape 't'
  · exact hescape '"'
  · exact hescape '\\'
  · have hplain : grammar.Fails .tight (alts [word "\"", word "\\", lineEnd]) ⟨o, x :: r⟩ := by
      refine fails_of_shuns (n := 6) ?_
      simp_all [shuns, alts, lineEnd, word]
    exact ⟨_, (hplain.absent.seq (skips_tight _) (takes_satisfy rfl)).alt_left⟩

theorem reads_string {s : String} {b cs : List Char} (hs : '\r' ∉ s.toList) (hb : Gap b cs) :
    grammar.Reads (.rule .string) (stringText s ++ (b ++ cs)) cs
      fun ts => ∃ span, ts = [.leaf .string span (stringText s)] := by
  refine Reads.token rfl (fun o => ?_) hb.skips hb.clear.rests
  have hend (o : Nat) : grammar.Fails .tight (.alt plainChar escape) ⟨o, '"' :: (b ++ cs)⟩ := by
    have hquote : grammar.Takes .tight (alts [word "\"", word "\\", lineEnd])
        ⟨o, '"' :: (b ++ cs)⟩ ⟨o + 1, b ++ cs⟩ [] := Takes.alt_left (takes_text rfl)
    exact Fails.alt hquote.absent.seq_left (fails_of_shuns (n := 2) rfl)
  obtain ⟨o', h⟩ := takes_star_flatMap (g := grammar) (o := o + 1)
    (fun x hx o r => takes_escaped (fun h => hs (h ▸ hx)) o r) hend
  have hopen : grammar.Takes .tight (word "\"")
      ⟨o, '"' :: (s.toList.flatMap escaped ++ '"' :: (b ++ cs))⟩
      ⟨o + 1, s.toList.flatMap escaped ++ '"' :: (b ++ cs)⟩ [] := takes_text rfl
  have hclose : grammar.Takes .tight (word "\"") ⟨o', '"' :: (b ++ cs)⟩ ⟨o' + 1, b ++ cs⟩ [] :=
    takes_text rfl
  refine ⟨o' + 1, [], ?_⟩
  rw [stringText, List.cons_append, List.append_assoc]
  exact hopen.seq (skips_tight _) (h.seq (skips_tight _) hclose)

theorem unescape_append (offset : Nat) (x : Char) (r : List Char) :
    ∃ offset', unescape offset (escaped x ++ r) = (unescape offset' r).map (x :: ·) := by
  unfold escaped
  split
  · exact ⟨_, rfl⟩
  · exact ⟨_, rfl⟩
  · exact ⟨_, rfl⟩
  · exact ⟨_, rfl⟩
  · refine ⟨offset + x.utf8Size, ?_⟩
    rw [List.singleton_append, unescape]
    · rfl
    all_goals simp_all

theorem unescape_escaped (offset : Nat) (cs : List Char) :
    unescape offset (cs.flatMap escaped) = .ok cs := by
  induction cs generalizing offset with
  | nil => rfl
  | cons x xs ih =>
    obtain ⟨offset', h⟩ := unescape_append offset x (xs.flatMap escaped)
    rw [List.flatMap_cons, h, ih]
    rfl

/-! ## What literals stand for -/

theorem leafNode_stringText (span : Span) (s : String) :
    leafNode .string span (stringText s) = .ok (.literal span (.str s)) := by
  have hinner : (stringText s).tail.dropLast = s.toList.flatMap escaped := by
    rw [stringText, List.tail_cons, List.dropLast_concat]
  rw [leafNode, hinner, unescape_escaped]
  simp [bind, Except.bind, pure, Except.pure]

theorem isDigit_of_mem_numeral {n : Int64} {c : Char} (h : c ∈ numeral n) : Rule.isDigit c = true :=
  Nat.isDigit_of_mem_toDigits (by decide) (by decide) h

theorem leafNode_numeral (span : Span) {n : Int64} (hn : 0 ≤ n) :
    leafNode .integer span (numeral n) = .ok (.literal span (.int n)) := by
  have hvalue : Decimal.natOfDigits (numeral n) = n.toInt.toNat :=
    Nat.ofDigitChars_toDigits (by decide) (by decide)
  have hpos : 0 ≤ n.toInt := Int64.le_iff_toInt_le.mp hn
  have hlt := n.toInt_lt
  have hback : Int64.ofNat n.toInt.toNat = n := by
    rw [← Int64.ofInt_eq_ofNat, Int.toNat_of_nonneg hpos, Int64.ofInt_toInt]
  rw [leafNode, readInteger, hvalue, if_pos (by omega), hback]
  rfl

/-! ## Operators -/

/-- An operator is read by its own rule: no rule before it is the start of it. -/
theorem reads_operator {rs : List Rule}
    (horder : rs.Pairwise fun q q' =>
      q.operatorText.toList.isPrefixOf q'.operatorText.toList = false)
    (hrules : ∀ q ∈ rs, grammar.body q = word q.operatorText ∧ isToken q = false ∧
      q.operatorText.toList.all isSolid = true)
    {r : Rule} (hr : r ∈ rs) {b cs : List Char} (hb : Gap b cs) :
    grammar.Reads (alts (rs.map .rule)) (r.operatorText.toList ++ (b ++ cs)) cs
      fun ts => ∃ span, ts = [.node r span []] := by
  have hself (q : Rule) (hq : q ∈ rs) : grammar.Reads (.rule q) (q.operatorText.toList ++ (b ++ cs)) cs
      fun ts => ∃ span, ts = [.node q span []] := by
    have hword : grammar.Reads (grammar.body q) (q.operatorText.toList ++ (b ++ cs)) cs (· = []) := by
      rw [(hrules q hq).1]
      exact reads_text hb
    exact hword.node (hrules q hq).2.1 fun span ts h => ⟨span, by rw [h]⟩
  induction rs with
  | nil => cases hr
  | cons q rs ih =>
    cases rs with
    | nil =>
      obtain rfl := List.mem_singleton.mp hr
      exact hself r (List.mem_cons_self ..)
    | cons q' rs =>
      obtain rfl | hr := List.mem_cons.mp hr
      · exact (hself r (List.mem_cons_self ..)).alt
      · obtain ⟨hq, horder⟩ := List.pairwise_cons.mp horder
        obtain ⟨hbody, htoken, hsolid⟩ := hrules q (List.mem_cons_self ..)
        have hfirst : grammar.Refuses (.rule q) (r.operatorText.toList ++ (b ++ cs)) := by
          refine Refuses.node htoken ?_
          rw [hbody]
          exact fun o => fails_word hsolid (hq r hr) hb.stops o
        exact hfirst.alt_reads (ih horder (fun p hp => hrules p (List.mem_cons_of_mem _ hp)) hr
          fun p hp => hself p (List.mem_cons_of_mem _ hp))

theorem reads_binary {r : Rule} (hr : r ∈ binaries) {b cs : List Char} (hb : Gap b cs) :
    grammar.Reads binary (r.operatorText.toList ++ (b ++ cs)) cs
      fun ts => ∃ span, ts = [.node r span []] := by
  refine reads_operator (by decide) (fun q hq => ?_) hr hb
  refine ⟨?_, ?_⟩
  · revert q
    simp only [binaries, List.forall_mem_cons]
    exact ⟨rfl, rfl, rfl, rfl, rfl, rfl, rfl, rfl, rfl, rfl, rfl, rfl, rfl, by simp⟩
  · revert q
    decide

theorem reads_unary {r : Rule} (hr : r ∈ [neg, not]) {b cs : List Char} (hb : Gap b cs) :
    grammar.Reads unary (r.operatorText.toList ++ (b ++ cs)) cs
      fun ts => ∃ span, ts = [.node r span []] := by
  refine reads_operator (by decide) (fun q hq => ?_) hr hb
  refine ⟨?_, ?_⟩
  · revert q
    simp only [List.forall_mem_cons]
    exact ⟨rfl, rfl, by simp⟩
  · revert q
    decide

end Dataflow
