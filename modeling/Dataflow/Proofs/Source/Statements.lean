import Dataflow.Proofs.Source.Expressions

/-!
# Statements

A statement is tried as a function, as an assignment and as an expression, in this order, so what
stands first has to refuse the text of what stands behind it.

* `Token`: what the tokens of expressions start with;
* `Spread.spells`: texts of tokens, with what follows them;
* `refuses_function`, `refuses_assignment`: the text of another statement is refused;
* `reads_assignment`, `reads_function`: the text of a statement is read.
-/

namespace Dataflow

open Grammar Pattern Rule

/-! ## The tokens of expressions -/

/-- The first characters of operators and literals. -/
def startsMark (x : Char) : Bool :=
  !startsName x && !isBlank x && !(['#', ':', ';', '(', ')', ',', '.', '\x7b', '\x7d', '\n'].contains x)

/-- A token of an expression: a name, a bracket, a comma, a dot, an operator or a literal. -/
inductive Token : List Char → Prop where
  | name {s : String} (h : isName s = true) : Token s.toList
  | point {x : Char} (h : x ∈ ['(', ')', ',', '.']) : Token [x]
  | mark {x : Char} {xs : List Char} (h : startsMark x = true) : Token (x :: xs)

theorem startsName_not_mark {x : Char} (h : startsName x = true) :
    isBlank x = false ∧ x ∉ ['#', ':', ';', '(', ')', ',', '.', '\x7b', '\x7d', '\n'] := by
  have hne {y : Char} (hy : startsName y = false) : x ≠ y := ne_of_class h hy
  refine ⟨?_, ?_⟩
  · simp [isBlank, hne (y := ' ') (by decide), hne (y := '\t') (by decide),
      hne (y := '\r') (by decide)]
  · have hall : ∀ y ∈ ['#', ':', ';', '(', ')', ',', '.', '\x7b', '\x7d', '\n'], startsName y = false :=
      forall_mem_chars (by decide)
    exact fun hm => hne (hall x hm) rfl

/-- A token of an expression starts neither with a blank nor with one of these. -/
theorem Token.head {t : List Char} (h : Token t) :
    ∃ x xs, t = x :: xs ∧ isBlank x = false ∧ x ∉ ['#', ':', ';', '\x7b', '\x7d', '\n'] := by
  cases h with
  | name h =>
    obtain ⟨x, xs, hx, hstart, -, -⟩ := exists_of_isName h
    obtain ⟨hb, hm⟩ := startsName_not_mark hstart
    exact ⟨x, xs, hx, hb, fun h => hm (by simp_all)⟩
  | @point x h =>
    have hall : ∀ x ∈ ['(', ')', ',', '.'], isBlank x = false ∧
        x ∉ ['#', ':', ';', '\x7b', '\x7d', '\n'] := forall_mem_chars (by decide)
    exact ⟨x, [], rfl, hall x h⟩
  | @mark x xs h =>
    simp only [startsMark, Bool.and_eq_true, Bool.not_eq_true', List.contains_eq_mem,
      decide_eq_false_iff_not] at h
    exact ⟨x, xs, rfl, h.1.2, fun hm => h.2 (by simp_all)⟩

theorem mem_commas {tss : List (List (List Char))} {t : List Char} (h : t ∈ commas tss) :
    t = [','] ∨ ∃ ts ∈ tss, t ∈ ts := by
  induction tss with
  | nil => cases h
  | cons ts tss ih =>
    cases tss with
    | nil => exact .inr ⟨ts, by simp, h⟩
    | cons ts' tss =>
      obtain h | h := List.mem_append.mp h
      · exact .inr ⟨ts, by simp, h⟩
      · obtain rfl | h := List.mem_cons.mp h
        · exact .inl rfl
        · obtain h | ⟨us, hus, h⟩ := ih h
          · exact .inl h
          · exact .inr ⟨us, List.mem_cons_of_mem _ hus, h⟩

theorem token_enclose {needed : Bool} {ts : List (List Char)} (h : ∀ t ∈ ts, Token t) :
    ∀ t ∈ enclose needed ts, Token t := by
  intro t ht
  cases needed with
  | false => exact h t ht
  | true =>
    obtain ht | ht := List.mem_append.mp ht
    · obtain ht | ht := List.mem_append.mp ht
      · rw [List.mem_singleton.mp ht]
        exact .point (by decide)
      · exact h t ht
    · rw [List.mem_singleton.mp ht]
      exact .point (by decide)

theorem token_binary {op : String} (hop : (binaryRule? op).isSome) : Token op.toList := by
  obtain ⟨q, hq⟩ := Option.isSome_iff_exists.mp hop
  have htext : q.operatorText = op := by simpa using List.find?_some hq
  have hall : ∀ q ∈ binaries, q.operatorText.toList.head?.any startsMark = true := by decide
  obtain ⟨x, hx, hmark⟩ := (Option.any_eq_true _ _).mp (hall q (List.mem_of_find?_eq_some hq))
  rw [htext] at hx
  obtain ⟨xs, hxs⟩ := List.head?_eq_some_iff.mp hx
  rw [hxs]
  exact .mark hmark

theorem startsMark_of_isDigit {x : Char} (h : Rule.isDigit x = true) : startsMark x = true := by
  have hne {y : Char} (hy : Rule.isDigit y = false) : x ≠ y := ne_of_class h hy
  have hname : startsName x = false := by
    cases hs : startsName x with
    | false => rfl
    | true =>
      rw [isDigit_of_startsName hs] at h
      cases h
  have hall : ∀ y ∈ ['#', ':', ';', '(', ')', ',', '.', '\x7b', '\x7d', '\n'], Rule.isDigit y = false :=
    forall_mem_chars (by decide)
  have hmem : x ∉ ['#', ':', ';', '(', ')', ',', '.', '\x7b', '\x7d', '\n'] := fun hm => hne (hall x hm) rfl
  simp only [startsMark, hname, isBlank, beq_false_of_ne (hne (y := ' ') (by decide)),
    beq_false_of_ne (hne (y := '\t') (by decide)), beq_false_of_ne (hne (y := '\r') (by decide)),
    List.contains_eq_mem, decide_eq_false hmem]
  rfl

theorem token_of_mem_tokens {e : Node} (he : e.Expression) :
    ∀ level, ∀ t ∈ e.tokens level, Token t := by
  induction he using Node.Expression.rec_on with
  | binary span place left op right hop hl hr h ihl ihr =>
    intro level
    rw [Node.tokens]
    refine token_enclose fun t ht => ?_
    obtain ht | ht := List.mem_append.mp ht
    · obtain ht | ht := List.mem_append.mp ht
      · exact ihl _ t ht
      · rw [List.mem_singleton.mp ht]
        exact token_binary hop
    · exact ihr _ t ht
  | unary span place value op hop hv h ih =>
    intro level
    rw [Node.tokens]
    refine token_enclose fun t ht => ?_
    obtain rfl | ht := List.mem_cons.mp ht
    · obtain rfl | rfl := hop
      · exact .mark (x := '-') (by decide)
      · exact .mark (x := '!') (by decide)
    · exact ih _ t ht
  | call span callee args hb hu hargs hc h ih iha =>
    intro level t ht
    rw [Node.tokens.eq_3 _ _ _ _ hb hu, Node.allTokens_eq] at ht
    simp only [List.append_assoc, List.mem_append, List.mem_singleton] at ht
    obtain ht | rfl | ht | rfl := ht
    · exact ih _ t ht
    · exact .point (by decide)
    · obtain rfl | ⟨ts, hts, ht⟩ := mem_commas ht
      · exact .point (by decide)
      · obtain ⟨a, ha, rfl⟩ := List.mem_map.mp hts
        exact (iha a ha).2 0 t ht
    · exact .point (by decide)
  | field span value name hname hv h ih =>
    intro level t ht
    rw [Node.tokens] at ht
    simp only [List.mem_append, List.mem_cons, List.not_mem_nil, or_false] at ht
    obtain ht | rfl | rfl := ht
    · exact ih _ t ht
    · exact .point (by decide)
    · exact .name hname
  | ident span name hname =>
    intro level t ht
    rw [Node.tokens, List.mem_singleton] at ht
    rw [ht]
    exact .name hname
  | int span i hi =>
    intro level t ht
    rw [Node.tokens, List.mem_singleton] at ht
    have hne : numeral i ≠ [] := Nat.toDigits_ne_nil
    obtain ⟨x, xs, hx⟩ := List.exists_cons_of_ne_nil hne
    rw [ht, hx]
    exact .mark (startsMark_of_isDigit (isDigit_of_mem_numeral (hx ▸ List.mem_cons_self ..)))
  | str span s hs =>
    intro level t ht
    rw [Node.tokens, List.mem_singleton] at ht
    rw [ht]
    exact .mark (by decide)

/-! ## Texts of tokens -/

/-- A token starts neither with a blank nor with a comment. -/
def Headed (t : List Char) : Prop := ∃ x xs, t = x :: xs ∧ isBlank x = false ∧ x ≠ '#'

theorem Token.headed {t : List Char} (h : Token t) : Headed t := by
  obtain ⟨x, xs, rfl, hb, hm⟩ := h.head
  exact ⟨x, xs, rfl, hb, fun h => hm (by simp [h])⟩

theorem Headed.clear {t : List Char} (h : Headed t) (cs : List Char) : Clear (t ++ cs) := by
  obtain ⟨x, xs, rfl, hb, hne⟩ := h
  intro y hy
  cases hy
  exact ⟨hb, hne⟩

theorem Spread.clear {ts : List (List Char)} {cs : List Char} (h : Spread ts cs)
    (hh : ∀ t ∈ ts, Headed t) (r : List Char) : Clear (cs ++ r) := by
  cases h with
  | one => exact (hh cs (by simp)).clear r
  | cons hb h =>
    rw [List.append_assoc]
    exact (hh _ (List.mem_cons_self ..)).clear _

/-- A text of tokens, with what follows it. -/
theorem Spread.spells {ts : List (List Char)} {cs : List Char} (h : Spread ts cs)
    (hh : ∀ t ∈ ts, Headed t) {g r : List Char} (hg : Gap g r) : Spells ts r (cs ++ (g ++ r)) := by
  induction h with
  | one t => exact .cons hg (.nil r)
  | @cons t b ts cs hb h ih =>
    have hts : ∀ t ∈ ts, Headed t := fun t ht => hh t (List.mem_cons_of_mem _ ht)
    rw [List.append_assoc, List.append_assoc]
    refine .cons ⟨hb.2, ?_, h.clear hts _⟩ (ih hts)
    obtain ⟨x, xs, rfl⟩ := List.exists_cons_of_ne_nil hb.1
    intro y hy
    cases hy
    exact .inl (hb.2 x (List.mem_cons_self ..))

/-- What can follow a statement. -/
def Ends (r : List Char) : Prop := ∀ x ∈ r.head?, x = '\n' ∨ x = '\x7d'

theorem Ends.follows {r : List Char} (h : Ends r) : Follows r := by
  intro x hx
  obtain rfl | rfl := h x hx <;> decide

section Tokens

variable {ts : List (List Char)} {r cs : List Char} (hts : ∀ t ∈ ts, Token t) (hr : Ends r)
  (h : Spells ts r cs)
include hts hr h

/-- The text of tokens starts with none of these. -/
theorem Spells.start : Clear cs ∧ ∀ x ∈ cs.head?, x ≠ ':' ∧ x ≠ '\x7b' := by
  cases h with
  | nil =>
    refine ⟨hr.follows.clear, fun x hx => ?_⟩
    obtain rfl | rfl := hr x hx <;> decide
  | cons hb h =>
    have ht := hts _ (List.mem_cons_self ..)
    refine ⟨ht.headed.clear _, fun x hx => ?_⟩
    obtain ⟨y, ys, rfl, -, hm⟩ := ht.head
    cases hx
    exact ⟨fun h => hm (by simp [h]), fun h => hm (by simp [h])⟩

/-- A bracket or a comma is read as a token of its own, or refused. -/
theorem Spells.point_or_refuses {x : Char} (hx : x ∈ ['(', ')', ',', '.']) :
    (∃ ts' mid, ts = [x] :: ts' ∧ Spells ts' r mid ∧ grammar.Reads (.text [x]) cs mid (· = [])) ∨
      grammar.Refuses (.text [x]) cs := by
  have hwide : ∀ y ∈ ['(', ')', ',', '.'], y ∈ ['#', ':', ';', '(', ')', ',', '.', '\x7b', '\x7d', '\n'] :=
    forall_mem_chars (by decide)
  have hshun {y : Char} {ys : List Char} (hne : y ≠ x) : grammar.Refuses (.text [x]) (y :: ys) :=
    refuses_first 1 (bne_iff_ne.mpr fun h => hne (Option.some.inj h))
  cases h with
  | nil =>
    cases r with
    | nil => exact .inr (refuses_of_shuns 1 rfl)
    | cons y ys =>
      refine .inr (hshun ?_)
      rintro rfl
      obtain rfl | rfl := hr y rfl <;> revert hx <;> decide
  | @cons t b mid _ ts' hb h =>
    have ht := hts t (List.mem_cons_self ..)
    cases ht with
    | @name s hs =>
      obtain ⟨y, ys, hy, hstart, -, -⟩ := exists_of_isName hs
      rw [hy]
      refine .inr (hshun ?_)
      rintro rfl
      exact (startsName_not_mark hstart).2 (hwide y hx)
    | @point y hy =>
      by_cases hxy : y = x
      · subst hxy
        exact .inl ⟨ts', mid, rfl, h, reads_text hb⟩
      · exact .inr (hshun hxy)
    | @mark y ys hy =>
      refine .inr (hshun ?_)
      rintro rfl
      simp only [startsMark, Bool.and_eq_true, Bool.not_eq_true', List.contains_eq_mem,
        decide_eq_false_iff_not] at hy
      exact hy.2 (hwide y hx)

/-- A name is read as a token of its own, or refused. -/
theorem Spells.ident_or_refuses :
    (∃ t ts' mid, ts = t :: ts' ∧ Spells ts' r mid ∧
      grammar.Reads (.rule .ident) cs mid fun _ => True) ∨ grammar.Refuses (.rule .ident) cs := by
  cases h with
  | nil =>
    refine .inr (refuses_ident fun x hx => ?_)
    obtain rfl | rfl := hr x hx <;> decide
  | @cons t b mid _ ts' hb h =>
    have ht := hts t (List.mem_cons_self ..)
    cases ht with
    | @name s hs => exact .inl ⟨_, ts', mid, rfl, h, (reads_ident hs hb).mono fun _ _ => trivial⟩
    | @point y hy =>
      refine .inr (refuses_ident fun x hx => ?_)
      cases hx
      have hall : ∀ y ∈ ['(', ')', ',', '.'], startsName y = false := forall_mem_chars (by decide)
      exact hall y hy
    | @mark y ys hy =>
      refine .inr (refuses_ident fun x hx => ?_)
      cases hx
      simp only [startsMark, Bool.and_eq_true, Bool.not_eq_true'] at hy
      exact hy.1.1

end Tokens

/-! ## Refused as a function -/

/-- Names with commas before them are read up to some token. -/
theorem reads_names {r : List Char} (hr : Ends r) (k : Nat) : ∀ {ts : List (List Char)}
    {cs : List Char}, ts.length = k → (∀ t ∈ ts, Token t) → Spells ts r cs →
    ∃ ts' mid, (∀ t ∈ ts', Token t) ∧ Spells ts' r mid ∧
      grammar.Reads (.star (.seq (word ",") (.rule .ident))) cs mid fun _ => True := by
  induction k using Nat.strongRecOn with
  | ind k ih =>
    intro ts cs hk hts h
    have stop (hrefuses : grammar.Refuses (.seq (word ",") (.rule .ident)) cs) :
        ∃ ts' mid, (∀ t ∈ ts', Token t) ∧ Spells ts' r mid ∧
          grammar.Reads (.star (.seq (word ",") (.rule .ident))) cs mid fun _ => True :=
      ⟨ts, cs, hts, h, (hrefuses.star (h.start hts hr).1.rests).mono fun _ _ => trivial⟩
    obtain ⟨ts₁, m₁, rfl, h₁, hcomma⟩ | hcomma := h.point_or_refuses hts hr (x := ',') (by decide)
    · have hts₁ : ∀ t ∈ ts₁, Token t := fun t ht => hts t (List.mem_cons_of_mem _ ht)
      obtain ⟨t, ts₂, m₂, rfl, h₂, hident⟩ | hident := h₁.ident_or_refuses hts₁ hr
      · obtain ⟨ts', mid, hts', h', hrest⟩ := ih ts₂.length (by simp at hk; omega) rfl
          (fun t ht => hts₁ t (List.mem_cons_of_mem _ ht)) h₂
        have hone : grammar.Reads (.seq (word ",") (.rule .ident)) cs m₂ fun _ => True :=
          hcomma.seq hident fun _ _ _ _ => trivial
        exact ⟨ts', mid, hts', h', hone.star hrest fun _ _ _ _ => trivial⟩
      · exact stop (hcomma.seq_refuses hident)
    · exact stop hcomma.seq

/-- Parameters are read up to some token. -/
theorem reads_params_some {r : List Char} (hr : Ends r) {ts : List (List Char)} {cs : List Char}
    (hts : ∀ t ∈ ts, Token t) (h : Spells ts r cs) :
    ∃ ts' mid, (∀ t ∈ ts', Token t) ∧ Spells ts' r mid ∧
      grammar.Reads (.rule .params) cs mid fun _ => True := by
  obtain ⟨t, ts₁, m₁, rfl, h₁, hident⟩ | hident := h.ident_or_refuses hts hr
  · obtain ⟨ts', mid, hts', h', hrest⟩ := reads_names hr _ rfl
      (fun t ht => hts t (List.mem_cons_of_mem _ ht)) h₁
    have hall : grammar.Reads (separated (word ",") (.rule .ident)) cs mid fun _ => True :=
      hident.seq hrest fun _ _ _ _ => trivial
    exact ⟨ts', mid, hts', h', hall.alt.node rfl fun _ _ _ => trivial⟩
  · refine ⟨ts, cs, hts, h, ?_⟩
    have hnone : grammar.Reads (grammar.body .params) cs cs (· = []) :=
      Refuses.alt_reads hident.seq (Reads.empty (h.start hts hr).1.rests)
    exact hnone.node rfl fun _ _ _ => trivial

/-- What stands behind the name of a function is refused where no colon stands. -/
theorem refuses_head {r : List Char} (hr : Ends r) {ts : List (List Char)} {cs : List Char}
    (hts : ∀ t ∈ ts, Token t) (h : Spells ts r cs) (p : Pattern Rule) :
    grammar.Refuses (seqs [word "(", .rule .params, word ")", word ":", p]) cs := by
  obtain ⟨ts₁, m₁, rfl, h₁, hopen⟩ | hopen := h.point_or_refuses hts hr (x := '(') (by decide)
  · obtain ⟨ts₂, m₂, hts₂, h₂, hparams⟩ := reads_params_some hr
      (fun t ht => hts t (List.mem_cons_of_mem _ ht)) h₁
    refine hopen.seq_refuses (hparams.seq_refuses ?_)
    obtain ⟨ts₃, m₃, rfl, h₃, hclose⟩ | hclose := h₂.point_or_refuses hts₂ hr (x := ')') (by decide)
    · have hcolon := (h₃.start (fun t ht => hts₂ t (List.mem_cons_of_mem _ ht)) hr).2
      refine hclose.seq_refuses (Refuses.seq (refuses_of_shuns 1 ?_))
      exact bne_iff_ne.mpr fun h => (hcolon ':' h).1 rfl
    · exact hclose.seq
  · exact hopen.seq

/-- What goes on like a name is read as a name, or refused. -/
theorem reads_or_refuses_ident {y : Char} {ys b mid : List Char}
    (hys : ∀ z ∈ ys, continuesName z = true) (hb : Gap b mid) :
    (grammar.Reads (.rule .ident) (y :: ys ++ (b ++ mid)) mid fun _ => True) ∨
      grammar.Refuses (.rule .ident) (y :: ys ++ (b ++ mid)) := by
  cases hstart : startsName y with
  | false =>
    refine .inr (refuses_ident fun x hx => ?_)
    cases hx
    exact hstart
  | true =>
    by_cases hfn : y :: ys = ['f', 'n']
    · -- the keyword itself
      refine .inr fun o => Fails.token rfl (Fails.seq_left ?_)
      rw [hfn]
      have hword : grammar.Takes .tight (word "fn") ⟨o, 'f' :: 'n' :: (b ++ mid)⟩
          ⟨o + 1 + 1, b ++ mid⟩ [] := takes_text rfl
      have hend : grammar.Fails .tight (.satisfy continuesName) ⟨o + 1 + 1, b ++ mid⟩ :=
        fails_satisfy (hb.stops.none (forall_mem_chars (by decide)))
      exact Takes.absent (hword.seq (skips_tight _) hend.absent)
    · have hname : isName (String.ofList (y :: ys)) = true := by
        have hne : String.ofList (y :: ys) ≠ "fn" := by
          intro h
          have := congrArg String.toList h
          rw [String.toList_ofList] at this
          exact hfn this
        rw [isName, String.toList_ofList]
        simp only [hstart, Bool.true_and, Bool.and_eq_true, List.all_eq_true, bne_iff_ne]
        exact ⟨hys, hne⟩
      have := reads_ident hname hb
      rw [String.toList_ofList] at this
      exact .inl (this.mono fun _ _ => trivial)

/-- A text of tokens is not a function. -/
theorem refuses_function {r : List Char} (hr : Ends r) {ts : List (List Char)} {cs : List Char}
    (hts : ∀ t ∈ ts, Token t) (h : Spells ts r cs) : grammar.Refuses (.rule .function) cs := by
  refine Refuses.node rfl ?_
  have hshun {y : Char} {ys : List Char} (hne : y ≠ 'f') : grammar.Refuses (word "fn") (y :: ys) :=
    refuses_first 1 (bne_iff_ne.mpr fun h => hne (Option.some.inj h))
  cases h with
  | nil =>
    refine Refuses.seq ?_
    cases r with
    | nil => exact refuses_of_shuns 1 rfl
    | cons y ys => exact hshun (by obtain rfl | rfl := hr y rfl <;> decide)
  | @cons t b mid _ ts hb h =>
    have ht := hts t (List.mem_cons_self ..)
    cases ht with
    | @point y hy =>
      have hall : ∀ y ∈ ['(', ')', ',', '.'], y ≠ 'f' := forall_mem_chars (by decide)
      exact (hshun (hall y hy)).seq
    | @mark y ys hy => exact (hshun (ne_of_class hy (by decide))).seq
    | @name s hs =>
      obtain ⟨x, xs, hx, hstart, hcont, hne⟩ := exists_of_isName hs
      rw [hx] at hne ⊢
      cases hp : ['f', 'n'].isPrefixOf (x :: xs) with
      | false => exact Refuses.seq fun o => fails_word (by decide) hp hb.stops o
      | true =>
        -- a longer name that starts with the letters of the keyword
        obtain ⟨ys, hys⟩ := List.isPrefixOf_iff_prefix.mp hp
        cases ys with
        | nil => exact absurd hys.symm hne
        | cons y ys =>
          cases hys
          have hy : continuesName y = true := hcont y (by simp)
          have hclear : Clear (y :: ys ++ (b ++ mid)) := by
            intro z hz
            cases hz
            have hne {z : Char} (hz : continuesName z = false) : y ≠ z := ne_of_class hy hz
            refine ⟨?_, hne (by decide)⟩
            simp [isBlank, hne (z := ' ') (by decide), hne (z := '\t') (by decide),
              hne (z := '\r') (by decide)]
          have hword : grammar.Reads (word "fn") ('f' :: 'n' :: (y :: ys ++ (b ++ mid)))
              (y :: ys ++ (b ++ mid)) (· = []) :=
            reads_blanks (t := ['f', 'n']) (b := []) (by simp) hclear
          refine hword.seq_refuses ?_
          have hys : ∀ z ∈ ys, continuesName z = true := fun z hz =>
            hcont z (List.mem_cons_of_mem _ (List.mem_cons_of_mem _ hz))
          obtain hident | hident := reads_or_refuses_ident (y := y) hys hb
          · exact hident.seq_refuses
              (refuses_head hr (fun t ht => hts t (List.mem_cons_of_mem _ ht)) h _)
          · exact hident.seq

/-! ## Refused as an assignment -/

/-- The names of an assignment end where neither a comma nor an equals sign stands. -/
theorem refuses_equals_first {cs : List Char} (hc : Clear cs)
    (hx : ∀ x ∈ cs.head?, x ≠ ',' ∧ x ≠ '=') (p : Pattern Rule) :
    grammar.Refuses (seqs [.star (.seq (word ",") (.rule .ident)), .absent (word "=="), word "=", p])
      cs := by
  have hcomma : grammar.Refuses (word ",") cs :=
    refuses_of_shuns 1 (bne_iff_ne.mpr fun h => (hx ',' h).1 rfl)
  have hequals (w : String) (hw : w.toList.head? = some '=') : grammar.Refuses (word w) cs := by
    obtain ⟨ws, hws⟩ := List.head?_eq_some_iff.mp hw
    rw [word, hws]
    exact refuses_of_shuns 1 (bne_iff_ne.mpr fun h => (hx '=' h).2 rfl)
  refine (hcomma.seq.star hc.rests).seq_refuses ?_
  exact ((hequals "==" (by decide)).absent hc.rests).seq_refuses (hequals "=" (by decide)).seq

/-- What stands behind the first operand of an expression is not part of an assignment. -/
theorem refuses_equals {items : List Item} {r cs : List Char} (hr : Ends r)
    (hi : ∀ i ∈ items.head?, i.isSuffix = true ∨
      ∃ op strength span, i = .binary op strength span ∧ (binaryRule? op).isSome)
    (h : Spells (items.flatMap Item.tokens) r cs) (p : Pattern Rule) :
    grammar.Refuses (seqs [.star (.seq (word ",") (.rule .ident)), .absent (word "=="), word "=", p])
      cs := by
  cases items with
  | nil =>
    cases h
    refine refuses_equals_first hr.follows.clear (fun x hx => ?_) p
    obtain rfl | rfl := hr x hx <;> decide
  | cons i items =>
    obtain ⟨mid, h, -⟩ := Spells.append h
    obtain hs | ⟨op, strength, span, rfl, hop⟩ := hi i rfl
    · cases i with
      | call args stop =>
        obtain ⟨b, mid', rfl, -, -⟩ := Spells.uncons h
        exact refuses_equals_first (fun x hx => by cases hx; decide) (fun x hx => by cases hx; decide) p
      | field name stop =>
        obtain ⟨b, mid', rfl, -, -⟩ := Spells.uncons h
        exact refuses_equals_first (fun x hx => by cases hx; decide) (fun x hx => by cases hx; decide) p
      | operand | unary | binary => cases hs
    · obtain ⟨hclear, -⟩ := clear_binary hop h
      obtain ⟨q, hq⟩ := Option.isSome_iff_exists.mp hop
      have htext : q.operatorText = op := by simpa using List.find?_some hq
      have hall : ∀ q ∈ binaries, q.operatorText = "==" ∨
          q.operatorText.toList.head?.any (fun x => x != ',' && x != '=') = true := by decide
      obtain ⟨b, rfl, hb⟩ := Spells.single h
      obtain heq | hfirst := hall q (List.mem_of_find?_eq_some hq)
      · rw [htext] at heq
        subst heq
        have hcomma : grammar.Refuses (word ",") ("==".toList ++ (b ++ mid)) := refuses_first 1 rfl
        exact (hcomma.seq.star hclear.rests).seq_refuses (reads_text hb).absent.seq
      · rw [htext] at hfirst
        obtain ⟨x, hx, hne⟩ := (Option.any_eq_true _ _).mp hfirst
        refine refuses_equals_first hclear (fun y hy => ?_) p
        rw [List.head?_append, hx, Option.some_or] at hy
        cases hy
        simpa using hne

/-- The first operand of a flat expression, what stands before it and what stands behind it. -/
theorem Item.Flat.first {items : List Item} (h : Item.Flat items) :
    ∃ us n rest, items = us ++ .operand n :: rest ∧ (∀ u ∈ us, u.isUnary = true) ∧ n.Expression ∧
      ∀ i ∈ rest.head?, i.isSuffix = true ∨
        ∃ op strength span, i = .binary op strength span ∧ (binaryRule? op).isSome := by
  cases h with
  | @one us ss n hu hn hs =>
    exact ⟨us, n, ss, rfl, hu, hn, fun i hi => .inl (hs i (List.mem_of_mem_head? hi))⟩
  | @cons us ss items n op strength span hu hn hs hop h =>
    refine ⟨us, n, ss ++ .binary op strength span :: items, by simp, hu, hn, fun i hi => ?_⟩
    cases ss with
    | nil =>
      cases hi
      exact .inr ⟨op, strength, span, rfl, hop⟩
    | cons s ss =>
      cases hi
      exact .inl (hs _ (List.mem_cons_self ..))

/-- Only a name is read as a name. -/
theorem refuses_ident_operand {n : Node} (hn : n.Expression) (hne : n.isIdent = false)
    {r cs : List Char} (h : Spells (Item.operand n).tokens r cs) :
    grammar.Refuses (.rule .ident) cs := by
  have hfirst {x : Char} {xs : List Char} (hx : startsName x = false) :
      grammar.Refuses (.rule .ident) (x :: xs) := by
    refine refuses_ident fun y hy => ?_
    cases hy
    exact hx
  induction hn using Node.Expression.rec_on with
  | binary | unary | call | field =>
    obtain ⟨b, mid, rfl, -, -⟩ := Spells.uncons (t := ['(']) h
    exact hfirst (by decide)
  | ident => cases hne
  | int span i hi =>
    rw [Item.tokens, Node.tokens] at h
    obtain ⟨b, rfl, hb⟩ := Spells.single h
    obtain ⟨x, xs, hx⟩ := List.exists_cons_of_ne_nil (show numeral i ≠ [] from Nat.toDigits_ne_nil)
    have hdigit : Rule.isDigit x = true := isDigit_of_mem_numeral (hx ▸ List.mem_cons_self ..)
    rw [hx]
    refine hfirst ?_
    cases hs : startsName x with
    | false => rfl
    | true =>
      rw [isDigit_of_startsName hs] at hdigit
      cases hdigit
  | str span s hs =>
    rw [Item.tokens, Node.tokens] at h
    obtain ⟨b, rfl, hb⟩ := Spells.single h
    exact hfirst (x := '"') (by decide)

/-- The text of an expression is not an assignment. -/
theorem refuses_assignment {e : Node} (he : e.Expression) {r cs : List Char} (hr : Ends r)
    (h : Spells (e.tokens 0) r cs) : grammar.Refuses (.rule .assignment) cs := by
  refine Refuses.node rfl ?_
  rw [Node.tokens_flat he] at h
  obtain ⟨us, n, rest, hitems, hu, hn, hrest⟩ := (e.flat_shape he 0).first
  rw [hitems] at h
  cases us with
  | nil =>
    obtain ⟨mid, hoperand, hbehind⟩ := Spells.append h
    cases hident : n.isIdent with
    | false => exact (refuses_ident_operand hn hident hoperand).seq
    | true =>
      cases n with
      | ident span name =>
        rw [Node.Expression] at hn
        rw [Item.tokens, Node.tokens] at hoperand
        obtain ⟨b, rfl, hb⟩ := Spells.single hoperand
        exact (reads_ident hn hb).seq_refuses (refuses_equals hr hrest hbehind _)
      | _ => cases hident
  | cons u us =>
    -- a unary operator is not a name
    have hunary := hu u (List.mem_cons_self ..)
    cases u with
    | unary op span =>
      obtain ⟨b, mid, rfl, -, -⟩ := Spells.uncons h
      refine Refuses.seq (refuses_ident fun x hx => ?_)
      simp only [Item.isUnary, Bool.or_eq_true, beq_iff_eq] at hunary
      obtain rfl | rfl := hunary <;> cases hx <;> decide
    | _ => cases hunary

/-! ## Read as a statement -/

/-- The matches of names. -/
def Names (names : List String) (ts : List (Tree Rule)) : Prop :=
  leafTexts ts = names ∧ ∃ nodes, Tree.toNodes ts = .ok nodes

theorem leafTexts_append (ts ts' : List (Tree Rule)) :
    leafTexts (ts ++ ts') = leafTexts ts ++ leafTexts ts' := by
  induction ts with
  | nil => rfl
  | cons t ts ih => cases t <;> simp [leafTexts, ih]

theorem Names.nil : Names [] [] := ⟨rfl, [], by rw [Tree.toNodes]; rfl⟩

theorem Names.append {names names' : List String} {ts ts' : List (Tree Rule)} (h : Names names ts)
    (h' : Names names' ts') : Names (names ++ names') (ts ++ ts') := by
  obtain ⟨ht, nodes, hn⟩ := h
  obtain ⟨ht', nodes', hn'⟩ := h'
  exact ⟨by rw [leafTexts_append, ht, ht'], nodes ++ nodes', Tree.toNodes_append hn hn'⟩

theorem Names.one {name : String} {ts : List (Tree Rule)}
    (h : ∃ span, ts = [.leaf .ident span name.toList]) : Names [name] ts := by
  obtain ⟨span, rfl⟩ := h
  refine ⟨by rw [leafTexts, leafTexts, String.ofList_toList], [.ident span (String.ofList name.toList)], ?_⟩
  rw [Tree.toNodes.eq_3 _ _ (by simp), Tree.toNode, leafNode, Tree.toNodes]
  rfl

/-- Names with commas between them are read. -/
theorem reads_name_list {name : String} {names : List String}
    (hn : ∀ n ∈ name :: names, isName n = true) {r cs : List Char} (hc : Clear r)
    (hr : grammar.Refuses (word ",") r)
    (h : Spells (commas ((name :: names).map fun n => [n.toList])) r cs) :
    ∃ m, (grammar.Reads (.rule .ident) cs m (Names [name])) ∧
      grammar.Reads (.star (.seq (word ",") (.rule .ident))) m r (Names names) := by
  refine reads_commas (P := fun n => Names [n]) (Q := Names) .nil (fun n ns s t hs ht => hs.append ht)
    hr hc (fun n hmem s cs' _ h' => ?_) h
  obtain ⟨b, rfl, hb⟩ := h'.single
  exact (reads_ident (hn n hmem) hb).mono fun ts => Names.one

theorem reads_assignment {span : Span} {names : List String} {value : Node} (hne : names ≠ [])
    (hn : ∀ n ∈ names, isName n = true) (hv : value.Expression) {r cs : List Char} (hr : Ends r)
    (h : Spells (commas (names.map fun n => [n.toList]) ++ ['='] :: value.tokens 0) r cs) :
    grammar.Reads (.rule .assignment) cs r (Makes [.assign span names value]) := by
  obtain ⟨name, names, rfl⟩ := List.exists_cons_of_ne_nil hne
  obtain ⟨mid, hnames, h⟩ := h.append
  obtain ⟨b, mid', rfl, hb, hvalue⟩ := h.uncons
  have hclear : Clear (['='] ++ (b ++ mid')) := fun x hx => by cases hx; decide
  obtain ⟨m, hfirst, hrest⟩ := reads_name_list hn hclear (refuses_first 1 rfl) hnames
  -- one equals sign is not two
  have hequals : grammar.Refuses (word "==") (['='] ++ (b ++ mid')) :=
    fun o => fails_word (by decide) (by decide) hb.stops o
  have hequal : grammar.Reads (.seq (word "=") (.rule .expression)) _ r (Shows value) :=
    reads_text_seq (t := ['=']) hb (reads_expression hv _ _ hr.follows hvalue)
  have htail : grammar.Reads (.seq (.absent (word "==")) (.seq (word "=") (.rule .expression))) _ r
      (Shows value) :=
    (hequals.absent hclear.rests).seq hequal fun s t hs ht => by rwa [hs]
  have hmiddle : grammar.Reads (.seq (.star (.seq (word ",") (.rule .ident)))
      (.seq (.absent (word "==")) (.seq (word "=") (.rule .expression)))) m r fun ts =>
        ∃ s t, ts = s ++ t ∧ Names names s ∧ Shows value t :=
    hrest.seq htail fun s t hs ht => ⟨s, t, rfl, hs, ht⟩
  have hbody : grammar.Reads (grammar.body .assignment) cs r fun ts =>
      ∃ s t, ts = s ++ t ∧ Names (name :: names) s ∧ Shows value t := by
    refine hfirst.seq hmiddle fun s t hs ht => ?_
    obtain ⟨s', t', rfl, hs', ht'⟩ := ht
    exact ⟨s ++ s', t', by rw [List.append_assoc], hs.append hs', ht'⟩
  refine hbody.node rfl fun place ts h => ?_
  obtain ⟨s, t, hts, hs, ht⟩ := h
  obtain ⟨n, hn, hb⟩ := ht.toNodes
  obtain ⟨htexts, nodes, hnodes⟩ := hs
  obtain ⟨espan, inner, n', rfl, -, -⟩ := ht
  refine ⟨[.assign place (name :: names) n], ?_, by simp only [Node.allBare, Node.bare, hb]⟩
  rw [Tree.toNodes.eq_3 _ _ (by simp), Tree.toNode, hts, Tree.toNodes_append hnodes hn,
    leafTexts_append, htexts]
  simp [leafTexts, Tree.toNodes, bind, Except.bind, pure, Except.pure]

theorem reads_params {params : List String} (hn : ∀ p ∈ params, isName p = true)
    {r cs : List Char} (hr : r.head? = some ')')
    (h : Spells (commas (params.map fun p => [p.toList])) r cs) :
    grammar.Reads (.rule .params) cs r fun ts =>
      ∃ span inner, ts = [.node .params span inner] ∧ leafTexts inner = params := by
  have hclear : Clear r := fun x hx => by rw [hr] at hx; cases hx; decide
  have hbody : grammar.Reads (grammar.body .params) cs r (Names params) := by
    cases params with
    | nil =>
      cases h
      have hident : grammar.Refuses (.rule .ident) r :=
        refuses_ident fun x hx => by rw [hr] at hx; cases hx; decide
      exact Refuses.alt_reads hident.seq ((Reads.empty hclear.rests).mono fun ts ht => ht ▸ .nil)
    | cons name names =>
      have hcomma : grammar.Refuses (word ",") r := refuses_of_shuns 1 (by rw [hr]; rfl)
      obtain ⟨m, hfirst, hrest⟩ := reads_name_list hn hclear hcomma h
      exact (hfirst.seq hrest fun s t hs ht => hs.append ht).alt
  exact hbody.node rfl fun span ts ht => ⟨span, ts, rfl, ht.1⟩

/-- What is read of a function, given what is read of its body. -/
def Declares (name : String) (params : List String) (B : List (Tree Rule) → Prop)
    (ts : List (Tree Rule)) : Prop :=
  ∃ span place inner params' body,
    ts = [.node .function span (.leaf .ident place name.toList :: .node .params inner params' :: body)] ∧
      leafTexts params' = params ∧ B body

theorem reads_function {name : String} {params : List String} (hname : isName name = true)
    (hparams : ∀ p ∈ params, isName p = true) {cs mid r : List Char}
    {B : List (Tree Rule) → Prop} (h : Spells (headTokens name params) mid cs)
    (hbody : grammar.Reads (.alt (.rule .block) (.rule .expression)) mid r B) :
    grammar.Reads (.rule .function) cs r (Declares name params B) := by
  obtain ⟨b₁, m₁, rfl, hb₁, h⟩ := Spells.uncons h
  obtain ⟨b₂, m₂, rfl, hb₂, h⟩ := h.uncons
  obtain ⟨b₃, m₃, rfl, hb₃, h⟩ := h.uncons
  obtain ⟨m₄, hnames, h⟩ := h.append
  obtain ⟨b₅, m₅, rfl, hb₅, h⟩ := h.uncons
  obtain ⟨b₆, rfl, hb₆⟩ := h.single
  have hclose : grammar.Reads (.seq (word ")") (.seq (word ":")
      (.alt (.rule .block) (.rule .expression)))) _ r B :=
    reads_text_seq (t := [')']) hb₅ (reads_text_seq (t := [':']) hb₆ hbody)
  have hlist : grammar.Reads (.seq (.rule .params) (.seq (word ")") (.seq (word ":")
      (.alt (.rule .block) (.rule .expression))))) _ r fun ts => ∃ inner params' rest,
        ts = .node .params inner params' :: rest ∧ leafTexts params' = params ∧ B rest :=
    (reads_params hparams rfl hnames).seq hclose fun s t hs ht => by
      obtain ⟨inner, params', rfl, hp⟩ := hs
      exact ⟨inner, params', t, rfl, hp, ht⟩
  have hnamed : grammar.Reads (.seq (.rule .ident) (.seq (word "(") (.seq (.rule .params)
      (.seq (word ")") (.seq (word ":") (.alt (.rule .block) (.rule .expression))))))) _ r fun ts =>
        ∃ place inner params' rest,
          ts = .leaf .ident place name.toList :: .node .params inner params' :: rest ∧
            leafTexts params' = params ∧ B rest :=
    (reads_ident hname hb₂).seq (reads_text_seq (t := ['(']) hb₃ hlist) fun s t hs ht => by
      obtain ⟨place, rfl⟩ := hs
      obtain ⟨inner, params', rest, rfl, hp, hB⟩ := ht
      exact ⟨place, inner, params', rest, rfl, hp, hB⟩
  refine (reads_text_seq (t := ['f', 'n']) hb₁ hnamed).node rfl fun span ts h => ?_
  obtain ⟨place, inner, params', rest, rfl, hp, hB⟩ := h
  exact ⟨span, place, inner, params', rest, rfl, hp, hB⟩

end Dataflow
