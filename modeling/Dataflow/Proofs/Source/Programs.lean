import Dataflow.Proofs.Source.Statements

/-!
# Programs

The text of a program is read, and the tree that is built is the program.

* `Margin`: line ends and blanks around statements;
* `Writes.reads`: the text of statements is read;
* `grammarBounds`: the depth that matching needs;
* **`Node.parse_writes`**: parsing inverts printing.
-/

namespace Dataflow

open Grammar Pattern Rule

/-! ## Between statements -/

/-- Blanks and line ends before a text, split at the first line end. -/
structure Margin (b r g x : List Char) : Prop where
  split : b ++ r = g ++ x
  blank : ∀ c ∈ g, isBlank c = true
  clear : Clear x
  lines : grammar.Reads (.star separator) x r (· = [])
  first : x = r ∧ '\n' ∉ b ∨
    x.head? = some '\n' ∧ grammar.Reads (plus separator) x r (· = [])

/-- A line end is read, and so are the blanks behind it. -/
theorem reads_separator {g x : List Char} (hg : ∀ c ∈ g, isBlank c = true) (hx : Clear x) :
    grammar.Reads separator ('\n' :: (g ++ x)) x (· = []) :=
  (reads_blanks (t := ['\n']) hg hx).alt.alt

theorem Loose.margin {b r : List Char} (hb : Loose b) (hc : Clear r)
    (hr : grammar.Refuses separator r) : ∃ g x, Margin b r g x := by
  induction b with
  | nil => exact ⟨[], r, rfl, by simp, hc, hr.star hc.rests, .inl ⟨rfl, by simp⟩⟩
  | cons c b ih =>
    obtain ⟨g, x, hm⟩ := ih fun y hy => hb y (List.mem_cons_of_mem _ hy)
    by_cases hline : c = '\n'
    · subst hline
      have hone : grammar.Reads separator ('\n' :: (b ++ r)) x (· = []) := by
        rw [hm.split]
        exact reads_separator hm.blank hm.clear
      refine ⟨[], '\n' :: (b ++ r), rfl, by simp, fun y hy => by cases hy; decide, ?_, .inr ⟨rfl, ?_⟩⟩
      · exact hone.star hm.lines fun s t hs ht => by rw [hs, ht]; rfl
      · exact hone.seq hm.lines fun s t hs ht => by rw [hs, ht]; rfl
    · have hblank : isBlank c = true := (hb c (List.mem_cons_self ..)).resolve_right hline
      refine ⟨c :: g, x, by rw [List.cons_append, hm.split]; rfl, ?_, hm.clear, hm.lines, ?_⟩
      · exact List.forall_mem_cons.mpr ⟨hblank, hm.blank⟩
      · refine hm.first.imp (fun h => ⟨h.1, ?_⟩) id
        exact List.not_mem_cons_of_ne_of_not_mem (Ne.symm hline) h.2

theorem Margin.gap {b r g x : List Char} (h : Margin b r g x) (hb : Loose b)
    (hne : b ≠ [] ∨ r = []) : Gap g x := by
  refine ⟨h.blank, ?_, h.clear⟩
  rw [← h.split]
  intro c hc
  cases b with
  | nil =>
    rw [hne.resolve_left (fun h => h rfl)] at hc
    cases hc
  | cons d b =>
    cases hc
    exact hb c (List.mem_cons_self ..)

/-- What can follow statements: the end, or a brace. -/
def Closes (r : List Char) : Prop := ∀ x ∈ r.head?, x = '\x7d'

namespace Closes

variable {r : List Char} (h : Closes r)
include h

theorem ends : Ends r := fun x hx => .inr (h x hx)

theorem refuses {p : Pattern Rule} (n : Nat) (hend : grammar.shuns n none p = true)
    (hbrace : grammar.shuns n (some '\x7d') p = true) : grammar.Refuses p r := by
  refine refuses_of_shuns n ?_
  cases r with
  | nil => exact hend
  | cons x xs =>
    cases h x rfl
    exact hbrace

theorem refuses_separator : grammar.Refuses separator r := h.refuses 6 (by decide) (by decide)

theorem refuses_statement : grammar.Refuses statement r := by
  have hident : grammar.Refuses (.rule .ident) r :=
    refuses_ident fun x hx => by rw [h x hx]; decide
  exact Refuses.alt (h.refuses 4 (by decide) (by decide))
    (Refuses.alt (Refuses.node rfl hident.seq) h.ends.follows.refuses_expression)

end Closes

/-- After the last statement, no further one is read. -/
theorem Margin.refuses {b r g x : List Char} (h : Margin b r g x) (hr : Closes r) :
    grammar.Refuses (.seq (plus separator) statement) x := by
  obtain ⟨rfl, -⟩ | ⟨-, hplus⟩ := h.first
  · exact hr.refuses_separator.seq.seq
  · exact hplus.seq_refuses hr.refuses_statement

theorem Margin.ends {b r g x : List Char} (h : Margin b r g x) (hr : Ends r) : Ends x := by
  obtain ⟨rfl, -⟩ | ⟨hx, -⟩ := h.first
  · exact hr
  · intro c hc
    rw [hx] at hc
    cases hc
    exact .inl rfl

/-! ## Statements one by one -/

/-- The text of a statement is read. -/
def Stands (n : Node) (cs : List Char) : Prop :=
  ∀ g x, Gap g x → Ends x → grammar.Reads statement (cs ++ (g ++ x)) x (Makes [n])

theorem stands_expression {e : Node} (he : e.Expression) {cs : List Char}
    (h : Spread (e.tokens 0) cs) : Stands e cs := by
  intro g x hg hx
  have htokens := token_of_mem_tokens he 0
  have hs := h.spells (fun t ht => (htokens t ht).headed) hg
  refine (refuses_function hx htokens hs).alt_reads ((refuses_assignment he hx hs).alt_reads ?_)
  exact (reads_expression he _ _ hx.follows hs).mono fun ts => Shows.makes

theorem token_assign {names : List String} {value : Node} (hn : ∀ n ∈ names, isName n = true)
    (hv : value.Expression) :
    ∀ t ∈ commas (names.map fun n => [n.toList]) ++ ['='] :: value.tokens 0, Token t := by
  intro t ht
  obtain ht | ht := List.mem_append.mp ht
  · obtain rfl | ⟨ts, hts, ht⟩ := mem_commas ht
    · exact .point (by decide)
    · obtain ⟨n, hmem, rfl⟩ := List.mem_map.mp hts
      rw [List.mem_singleton.mp ht]
      exact .name (hn n hmem)
  · obtain rfl | ht := List.mem_cons.mp ht
    · exact .mark (by decide)
    · exact token_of_mem_tokens hv 0 t ht

theorem stands_assign {span : Span} {names : List String} {value : Node} (hne : names ≠ [])
    (hn : ∀ n ∈ names, isName n = true) (hv : value.Expression) {cs : List Char}
    (h : Spread (commas (names.map fun n => [n.toList]) ++ ['='] :: value.tokens 0) cs) :
    Stands (.assign span names value) cs := by
  intro g x hg hx
  have htokens := token_assign hn hv
  have hs := h.spells (fun t ht => (htokens t ht).headed) hg
  exact (refuses_function hx htokens hs).alt_reads (reads_assignment hne hn hv hx hs).alt

theorem headed_headTokens {name : String} {params : List String} (hname : isName name = true)
    (hparams : ∀ p ∈ params, isName p = true) : ∀ t ∈ headTokens name params, Headed t := by
  intro t ht
  rw [headTokens] at ht
  simp only [List.mem_append, List.mem_cons, List.not_mem_nil, or_false] at ht
  obtain (((rfl | rfl | rfl) | ht) | (rfl | rfl)) := ht
  · exact ⟨'f', ['n'], rfl, by decide⟩
  · exact (Token.name hname).headed
  · exact ⟨'(', [], rfl, by decide⟩
  · obtain rfl | ⟨ts, hts, ht⟩ := mem_commas ht
    · exact ⟨',', [], rfl, by decide⟩
    · obtain ⟨p, hp, rfl⟩ := List.mem_map.mp hts
      rw [List.mem_singleton.mp ht]
      exact (Token.name (hparams p hp)).headed
  · exact ⟨')', [], rfl, by decide⟩
  · exact ⟨':', [], rfl, by decide⟩

theorem stands_bare {span inner : Span} {name : String} {params : List String} {body : Node}
    (hname : isName name = true) (hparams : ∀ p ∈ params, isName p = true) (hb : body.Expression)
    {cs : List Char} (h : Spread (headTokens name params ++ body.tokens 0) cs) :
    Stands (.function span name params (.list inner [body])) cs := by
  intro g x hg hx
  have htokens := token_of_mem_tokens hb 0
  have hs := h.spells (fun t ht => (List.mem_append.mp ht).elim (headed_headTokens hname hparams t)
    fun ht => (htokens t ht).headed) hg
  obtain ⟨mid, hhead, hbody⟩ := hs.append
  have hblock : grammar.Refuses (.rule .block) mid :=
    refuses_of_shuns 3 (bne_iff_ne.mpr fun h => ((hbody.start htokens hx).2 _ h).2 rfl)
  have hread := reads_function hname hparams hhead
    (hblock.alt_reads (reads_expression hb _ _ hx.follows hbody))
  refine Reads.alt (hread.mono fun ts ht => ?_)
  obtain ⟨place, place', inner', params', rest, rfl, rfl, place'', ts', n, rfl, hn, hbare⟩ := ht
  refine ⟨[.function place name (leafTexts params') (.list place'' [n])], ?_,
    by simp only [Node.allBare, Node.bare, hbare]⟩
  rw [Tree.toNodes.eq_3 _ _ (by simp), Tree.toNode]
  cases hitems : Tree.toItems ts' with
  | error e =>
    rw [hitems] at hn
    cases hn
  | ok items =>
    rw [hitems] at hn
    simp only [bind, Except.bind] at hn ⊢
    rw [hn, Tree.toNodes, String.ofList_toList]
    rfl

/-- A text of statements before another text, from its first character that is not blank on. -/
def Fills (items : List Node) (w r : List Char) : Prop :=
  ∃ g x, w ++ r = g ++ x ∧ (∀ c ∈ g, isBlank c = true) ∧ Clear x ∧
    grammar.Reads statements x r (Makes items)

theorem stands_block {span inner : Span} {name : String} {params : List String} {items : List Node}
    (hname : isName name = true) (hparams : ∀ p ∈ params, isName p = true) {cs w : List Char}
    (h : Spread (headTokens name params ++ [['\x7b']]) cs) (hw : w ≠ []) (hstops : Stops w)
    (hfill : ∀ r, Fills items w ('\x7d' :: r)) :
    Stands (.function span name params (.list inner items)) (cs ++ (w ++ ['\x7d'])) := by
  intro g x hg hx
  obtain ⟨g', x', hsplit, hblank, hclear, hitems⟩ := hfill (g ++ x)
  have hg' : Gap g' x' := by
    refine ⟨hblank, ?_, hclear⟩
    rw [← hsplit]
    obtain ⟨y, ys, rfl⟩ := List.exists_cons_of_ne_nil hw
    exact fun z hz => hstops z hz
  have hs := h.spells (fun t ht => (List.mem_append.mp ht).elim (headed_headTokens hname hparams t)
    fun ht => List.mem_singleton.mp ht ▸ ⟨'\x7b', [], rfl, by decide⟩) hg'
  obtain ⟨mid, hhead, hbrace⟩ := hs.append
  obtain ⟨b'', rfl, hb''⟩ := hbrace.single
  have hbody : grammar.Reads (grammar.body .block) _ x (Makes items) :=
    reads_text_seq (t := ['\x7b']) hb'' (hitems.seq (reads_text (t := ['\x7d']) hg)
      fun s t hs ht => by rwa [ht, List.append_nil])
  have hblock : grammar.Reads (.alt (.rule .block) (.rule .expression)) _ x fun ts =>
      ∃ place ts', ts = [.node .block place ts'] ∧ Makes items ts' :=
    (hbody.node rfl fun place ts ht => ⟨place, ts, rfl, ht⟩).alt
  have hread := reads_function hname hparams hhead hblock
  rw [← hsplit] at hread
  have htext : cs ++ (w ++ ['\x7d']) ++ (g ++ x) = cs ++ (w ++ '\x7d' :: (g ++ x)) := by simp
  rw [htext]
  refine Reads.alt (hread.mono fun ts ht => ?_)
  obtain ⟨place, place', inner', params', rest, rfl, rfl, place'', ts', rfl, found, hf, hbare⟩ := ht
  refine ⟨[.function place name (leafTexts params') (.list place'' found)], ?_,
    by simp only [Node.allBare, Node.bare, hbare]⟩
  rw [Tree.toNodes.eq_3 _ _ (by simp), Tree.toNode, hf, Tree.toNodes, String.ofList_toList]
  rfl

/-! ## Statements in a row -/

/-- Statements are read one after the other, up to the blanks behind the last one. -/
def Lists (n : Node) (ns : List Node) (cs : List Char) : Prop :=
  ∀ b r, Loose b → (b ≠ [] ∨ r = []) → Closes r → ∃ y g x, Margin b r g x ∧
    grammar.Reads statement (cs ++ (b ++ r)) y (Makes [n]) ∧
      grammar.Reads (.star (.seq (plus separator) statement)) y x (Makes ns)

theorem Stands.lists {n : Node} {cs : List Char} (h : Stands n cs) : Lists n [] cs := by
  intro b r hb hne hr
  obtain ⟨g, x, hm⟩ := hb.margin hr.ends.follows.clear hr.refuses_separator
  refine ⟨x, g, x, hm, ?_, ?_⟩
  · rw [hm.split]
    exact h g x (hm.gap hb hne) (hm.ends hr.ends)
  · exact ((hm.refuses hr).star hm.clear.rests).mono fun ts ht => ht ▸ .nil

/-- What a statement starts with. -/
def Opens (cs : List Char) : Prop :=
  ∃ x xs, cs = x :: xs ∧ isBlank x = false ∧ x ∉ ['#', ';', '\n']

theorem Opens.clear {cs : List Char} (h : Opens cs) (r : List Char) : Clear (cs ++ r) := by
  obtain ⟨x, xs, rfl, hb, hm⟩ := h
  intro y hy
  cases hy
  exact ⟨hb, fun h => hm (by simp [h])⟩

theorem Opens.refuses_separator {cs : List Char} (h : Opens cs) (r : List Char) :
    grammar.Refuses separator (cs ++ r) := by
  obtain ⟨x, xs, rfl, hb, hm⟩ := h
  refine refuses_first 6 ?_
  have hreturn : x ≠ '\r' := by
    rintro rfl
    cases hb
  simp only [List.mem_cons, List.not_mem_nil, or_false, not_or] at hm
  show ((some x != some '\n' && (some x != some '\r' && some x != some '\r')) && some x != some ';') = true
  simp [hm, hreturn]

/-- One more statement before others. -/
theorem Stands.cons {n m : Node} {ns : List Node} {cs b rest : List Char} (h : Stands n cs)
    (hb : Loose b) (hline : '\n' ∈ b) (hopens : Opens rest) (hrest : Lists m ns rest) :
    Lists n (m :: ns) (cs ++ b ++ rest) := by
  intro b' r hb' hne hr
  obtain ⟨y, g, x, hm, hfirst, hmore⟩ := hrest b' r hb' hne hr
  obtain ⟨g₁, x₁, hm₁⟩ := hb.margin (hopens.clear (b' ++ r)) (hopens.refuses_separator (b' ++ r))
  have hgap := hm₁.gap hb (.inl (List.ne_nil_of_mem hline))
  obtain ⟨-, hnot⟩ | ⟨hx₁, hplus⟩ := hm₁.first
  · exact absurd hline hnot
  · have hends : Ends x₁ := fun c hc => by rw [hx₁] at hc; cases hc; exact .inl rfl
    refine ⟨x₁, g, x, hm, ?_, ?_⟩
    · rw [List.append_assoc, List.append_assoc, hm₁.split]
      exact h g₁ x₁ hgap hends
    · have hone : grammar.Reads (.seq (plus separator) statement) x₁ y (Makes [m]) :=
        hplus.seq hfirst fun s t hs ht => by rwa [hs]
      exact hone.star hmore fun s t hs ht => hs.append ht

theorem fills_nil {b r : List Char} (hb : Loose b) (hr : Closes r) : Fills [] b r := by
  have hclear := hr.ends.follows.clear
  obtain ⟨g, x, hm⟩ := hb.margin hclear hr.refuses_separator
  refine ⟨g, x, hm.split, hm.blank, hm.clear, ?_⟩
  have hnone : grammar.Reads (opt (separated (plus separator) statement)) r r (· = []) :=
    Refuses.alt_reads hr.refuses_statement.seq (Reads.empty hclear.rests)
  have hend : grammar.Reads (.star separator) r r (· = []) := hr.refuses_separator.star hclear.rests
  have hrest : grammar.Reads (.seq (opt (separated (plus separator) statement)) (.star separator)) r r
      (· = []) := hnone.seq hend fun s t hs ht => by rw [hs, ht]; rfl
  refine hm.lines.seq hrest fun s t hs ht => ?_
  rw [hs, ht]
  exact .nil

/-- Statements are read with what is around them. -/
theorem Lists.fills {n : Node} {ns : List Node} {b cs b' r : List Char} (h : Lists n ns cs)
    (hopens : Opens cs) (hb : Loose b) (hb' : Loose b') (hne : b' ≠ [] ∨ r = []) (hr : Closes r) :
    Fills (n :: ns) (b ++ (cs ++ b')) r := by
  obtain ⟨y, g, x, hm, hfirst, hmore⟩ := h b' r hb' hne hr
  obtain ⟨g₁, x₁, hm₁⟩ := hb.margin (hopens.clear (b' ++ r)) (hopens.refuses_separator (b' ++ r))
  refine ⟨g₁, x₁, by rw [← hm₁.split]; simp, hm₁.blank, hm₁.clear, ?_⟩
  have hall : grammar.Reads (opt (separated (plus separator) statement)) (cs ++ (b' ++ r)) x
      (Makes (n :: ns)) := Reads.alt (hfirst.seq hmore fun s t hs ht => hs.append ht)
  have hend : grammar.Reads (.seq (opt (separated (plus separator) statement)) (.star separator))
      (cs ++ (b' ++ r)) r (Makes (n :: ns)) :=
    hall.seq hm.lines fun s t hs ht => by rwa [ht, List.append_nil]
  exact hm₁.lines.seq hend fun s t hs ht => by rwa [hs]

theorem Spread.opens {ts : List (List Char)} {cs : List Char} (h : Spread ts cs)
    (hopens : ∀ t ∈ ts.head?, Opens t) : Opens cs := by
  cases h with
  | one => exact hopens cs rfl
  | @cons t b ts cs hb h =>
    obtain ⟨x, xs, rfl, hx⟩ := hopens t rfl
    exact ⟨x, xs ++ (b ++ cs), rfl, hx⟩

theorem Opens.append {cs : List Char} (h : Opens cs) (r : List Char) : Opens (cs ++ r) := by
  obtain ⟨x, xs, rfl, hx⟩ := h
  exact ⟨x, xs ++ r, rfl, hx⟩

theorem Token.opens {t : List Char} (h : Token t) : Opens t := by
  obtain ⟨x, xs, rfl, hb, hm⟩ := h.head
  exact ⟨x, xs, rfl, hb, fun h => hm (by simp_all)⟩

theorem opens_head {name : String} {params : List String} {ts : List (List Char)} :
    ∀ t ∈ (headTokens name params ++ ts).head?, Opens t := by
  intro t ht
  cases ht
  exact ⟨'f', ['n'], rfl, by decide⟩

theorem Loose.stops {b : List Char} (hb : Loose b) (r : List Char) (hne : b ≠ []) : Stops (b ++ r) := by
  obtain ⟨x, xs, rfl⟩ := List.exists_cons_of_ne_nil hne
  intro y hy
  cases hy
  exact hb x (List.mem_cons_self ..)

/-- **The text of statements is read.** -/
theorem Writes.reads {ss : List Node} {cs : List Char} (h : Writes ss cs) :
    Node.Statements ss → (∀ n, ss = [n] → Stands n cs) ∧
      ∀ n ns, ss = n :: ns → Lists n ns cs ∧ Opens cs := by
  -- what is said of one statement says it of the list of it
  have single {n : Node} {cs : List Char} (h : Stands n cs) (hopens : Opens cs) :
      (∀ m, [n] = [m] → Stands m cs) ∧ ∀ m ms, [n] = m :: ms → Lists m ms cs ∧ Opens cs := by
    refine ⟨fun m hm => ?_, fun m ms hm => ?_⟩
    · cases hm
      exact h
    · cases hm
      exact ⟨h.lists, hopens⟩
  induction h with
  | nil => exact fun _ => ⟨fun _ h => (nomatch h), fun _ _ h => (nomatch h)⟩
  | expression hn h =>
    intro _
    exact single (stands_expression hn h)
      (h.opens fun t ht => (token_of_mem_tokens hn 0 t (List.mem_of_mem_head? ht)).opens)
  | assign h =>
    intro hs
    rw [Node.Statements, Node.Statement] at hs
    obtain ⟨⟨hne, hn, hv⟩, -⟩ := hs
    exact single (stands_assign hne hn hv h)
      (h.opens fun t ht => (token_assign hn hv t (List.mem_of_mem_head? ht)).opens)
  | bare hb h =>
    intro hs
    rw [Node.Statements, Node.Statement] at hs
    obtain ⟨⟨hname, hparams, -⟩, -⟩ := hs
    exact single (stands_bare hname hparams hb h) (h.opens opens_head)
  | @empty span inner name params cs b h hb hne =>
    intro hs
    rw [Node.Statements, Node.Statement] at hs
    obtain ⟨⟨hname, hparams, -⟩, -⟩ := hs
    have hclose (r : List Char) : Closes ('\x7d' :: r) := fun x hx => by cases hx; rfl
    have hstands : Stands (.function span name params (.list inner [])) (cs ++ (b ++ ['\x7d'])) :=
      stands_block hname hparams h hne (List.append_nil b ▸ hb.stops [] hne)
        fun r => fills_nil hb (hclose r)
    rw [List.append_assoc]
    exact single hstands ((h.opens opens_head).append _)
  | @block span inner name params items cs body b b' h hi hbody hb hne hb' hne' ih =>
    intro hs
    rw [Node.Statements, Node.Statement] at hs
    obtain ⟨⟨hname, hparams, hitems⟩, -⟩ := hs
    obtain ⟨n, ns, rfl⟩ := List.exists_cons_of_ne_nil hi
    obtain ⟨hlists, hopens⟩ := (ih hitems).2 n ns rfl
    have hclose (r : List Char) : Closes ('\x7d' :: r) := fun x hx => by cases hx; rfl
    have hstands : Stands (.function span name params (.list inner (n :: ns)))
        (cs ++ (b ++ (body ++ b') ++ ['\x7d'])) :=
      stands_block hname hparams h (by simp [hne]) (hb.stops _ hne)
        fun r => hlists.fills hopens hb hb' (.inl hne') (hclose r)
    have htext : cs ++ b ++ body ++ b' ++ ['\x7d'] = cs ++ (b ++ (body ++ b') ++ ['\x7d']) := by simp
    rw [htext]
    exact single hstands ((h.opens opens_head).append _)
  | @cons n m ns cs b rest h hb hline hrest ih ihrest =>
    intro hs
    rw [Node.Statements] at hs
    have hfirst := (ih (by rw [Node.Statements, Node.Statements]; exact ⟨hs.1, trivial⟩))
    obtain ⟨hlists, hopens⟩ := (ihrest hs.2).2 m ns rfl
    refine ⟨fun _ heq => (nomatch heq), fun n' ns' heq => ?_⟩
    cases heq
    refine ⟨(hfirst.1 n rfl).cons hb hline hopens hlists, ?_⟩
    rw [List.append_assoc]
    exact (hfirst.2 n [] rfl).2.append _

/-! ## Programs -/

theorem Writes.fills {ss : List Node} {cs b b' : List Char} (h : Writes ss cs)
    (hs : Node.Statements ss) (hb : Loose b) (hb' : Loose b') : Fills ss (b ++ (cs ++ b')) [] := by
  have hclose : Closes [] := by simp [Closes]
  cases ss with
  | nil =>
    cases h
    exact fills_nil (fun c hc => (List.mem_append.mp hc).elim (hb c) (hb' c)) hclose
  | cons n ns =>
    obtain ⟨hlists, hopens⟩ := (h.reads hs).2 n ns rfl
    exact hlists.fills hopens hb hb' (.inr rfl) hclose

theorem Writes.reads_program {ss : List Node} {cs b b' : List Char} (h : Writes ss cs)
    (hs : Node.Statements ss) (hb : Loose b) (hb' : Loose b') :
    grammar.Reads (.rule .program) (b ++ (cs ++ b')) [] fun ts =>
      ∃ span inner, ts = [.node .program span inner] ∧ Makes ss inner := by
  obtain ⟨g, x, hsplit, hg, hx, hread⟩ := h.fills hs hb hb'
  rw [List.append_nil] at hsplit
  have hrests : grammar.Rests [] := Clear.rests (by simp [Clear])
  have hfinish : grammar.Reads (.rule .finish) [] [] (Makes []) := by
    have hbody : grammar.Reads (grammar.body .finish) [] [] (· = []) :=
      ⟨hrests, fun o => ⟨⟨o, []⟩, o, [], takes_finish, hrests o, rfl⟩⟩
    refine hbody.node rfl fun span ts _ => ⟨[], ?_, rfl⟩
    rw [Tree.toNodes, Tree.toNodes]
    rfl
  have hall : grammar.Reads (.seq statements (.rule .finish)) x [] (Makes ss) :=
    hread.seq hfinish fun s t hs ht => by simpa using hs.append ht
  have hempty : grammar.Reads Pattern.empty (g ++ x) x (· = []) := reads_blanks (t := []) hg hx
  rw [hsplit]
  have hbody : grammar.Reads (grammar.body .program) (g ++ x) [] (Makes ss) :=
    hempty.seq hall fun s t hs ht => by rwa [hs]
  exact hbody.node rfl fun span ts ht => ⟨span, ts, rfl, ht⟩

/-! ## Depth and nesting -/

/-- Whether a rule takes a character whenever it matches. -/
def Rule.takesOne : Rule → Bool
  | .finish | .program | .params => false
  | _ => true

/-- How deep matching goes in a rule before it takes a character. -/
def Rule.depth : Rule → Nat
  | .program => 24
  | .field => 16
  | .expression => 15
  | .params => 11
  | .assignment => 10
  | .ident => 8
  | .float => 4
  | .function | .block | .callOp | .fieldOp | .grouped | .integer | .string => 3
  | _ => 2

/-- The grammar takes characters often enough for the depth that matching has. -/
def grammarBounds : grammar.Bounds 32 where
  takes := Rule.takesOne
  depth := Rule.depth
  skip := 5
  skip_le := by decide
  depth_le r := by cases r <;> decide
  takes_body r := by cases r <;> decide
  rank_body r := by cases r <;> decide
  fits_body r := by cases r <;> decide
  rank_blank := by decide
  fits_blank := by decide

/-- What matching gives at some depth it gives at the start of a text. -/
theorem start_of_outcome {n : Nat} {cs : List Char} {e : Cursor} {ts : List (Tree Rule)}
    (h : grammar.outcome n .spaced (.rule .program) (.start cs) = .done e ts) :
    ∃ w, grammar.start .program cs = (.done e ts, w) := by
  have hrun := grammarBounds.run_of_takes (n := depthFor cs.length) rfl ?_ ⟨n, h⟩ .none
  · exact ⟨(grammar.start .program cs).2, Prod.ext hrun rfl⟩
  · show 24 + 32 * cs.length ≤ 1024 * (cs.length + 1)
    omega

namespace Nesting

theorem depth_step (s : Nesting) (c : Char) : (s.step c).depth ≤ s.depth + 1 := by
  obtain ⟨place, brackets, run⟩ := s
  cases place <;> simp only [step, depth] <;> (repeat' split) <;> simp <;> omega

/-- A text is not nested deeper than it is long. -/
theorem checkFrom_eq_ok {limit : Nat} {cs : List Char} : ∀ {s : Nesting} {offset : Nat},
    s.depth + cs.length ≤ limit → s.checkFrom limit offset cs = .ok () := by
  induction cs with
  | nil => exact fun _ => rfl
  | cons c cs ih =>
    intro s offset h
    have hstep := s.depth_step c
    rw [List.length_cons] at h
    rw [checkFrom, if_neg (by omega)]
    exact ih (by omega)

end Nesting

/-! ## Parsing and printing -/

/-- A text of statements is read as these statements, if it is not nested too deeply. -/
theorem Writes.parseWithin_of_check {ss : List Node} {cs b b' : List Char} (h : Writes ss cs)
    (hs : Node.Statements ss) (hb : Loose b) (hb' : Loose b') {limit : Nat}
    (hcheck : Nesting.check limit (b ++ (cs ++ b')) = .ok ()) :
    ∃ n, Node.parseWithin limit (String.ofList (b ++ (cs ++ b'))) = .ok n ∧
      n.bare = (Node.list .none ss).bare := by
  obtain ⟨-, hread⟩ := h.reads_program hs hb hb'
  obtain ⟨e, o', ts, ⟨k, ht⟩, -, span, inner, rfl, found, hfound, hbare⟩ := hread 0
  generalize b ++ (cs ++ b') = text at *
  obtain ⟨w, hstart⟩ := start_of_outcome ht
  refine ⟨.list ⟨0, (String.ofList text).utf8ByteSize⟩ found, ?_, by rw [Node.bare, Node.bare, hbare]⟩
  rw [Node.parseWithin]
  simp only [String.toList_ofList, hcheck]
  rw [hstart]
  simp only [hfound]
  rfl

/-- A text of statements is read as these statements, if enough nesting is allowed. -/
theorem Writes.parseWithin {ss : List Node} {cs b b' : List Char} (h : Writes ss cs)
    (hs : Node.Statements ss) (hb : Loose b) (hb' : Loose b') {limit : Nat}
    (hlimit : (b ++ (cs ++ b')).length ≤ limit) :
    ∃ n, Node.parseWithin limit (String.ofList (b ++ (cs ++ b'))) = .ok n ∧
      n.bare = (Node.list .none ss).bare :=
  h.parseWithin_of_check hs hb hb' <|
    Nesting.checkFrom_eq_ok (by simpa [Nesting.start, Nesting.depth] using hlimit)

theorem spread_spaced {ts : List (List Char)} (h : ts ≠ []) : Spread ts (spaced ts) := by
  induction ts with
  | nil => exact absurd rfl h
  | cons t ts ih =>
    cases ts with
    | nil => exact .one t
    | cons t' ts => exact .cons (b := [' ']) ⟨by simp, by simp [isBlank]⟩ (ih (by simp))

theorem Node.tokens_ne_nil {e : Node} (he : e.Expression) : e.tokens 0 ≠ [] := by
  obtain ⟨us, n, rest, hitems, -, hn, -⟩ := (e.flat_shape he 0).first
  obtain ⟨x, xs, ts, htokens, -⟩ := head_operand hn
  rw [tokens_flat he, hitems]
  simp [htokens]

/-- Every program can be written. -/
theorem writes_print {ss : List Node} (hs : Node.Statements ss) : Writes ss (Node.print ss) := by
  refine Node.print.induct (fun n => n.Statement → Writes [n] n.printOne)
    (fun ns => Node.Statements ns → Writes ns (Node.print ns)) ?_ ?_ ?_ ?_ ?_ ?_ ss hs
  · intro span name params inner items ih hs
    rw [Node.Statement] at hs
    have hhead : Spread (headTokens name params ++ [['\x7b']]) _ := spread_spaced (by simp)
    have hline : Loose ['\n'] := by simp [Loose]
    rw [Node.printOne]
    cases items with
    | nil =>
      have hempty : Writes [.function span name params (.list inner [])] (_ ++ ['\n', '\n'] ++ ['\x7d']) :=
        .empty hhead (by simp [Loose]) (by simp)
      simpa [Node.print] using hempty
    | cons n ns =>
      have hblock : Writes [.function span name params (.list inner (n :: ns))] _ :=
        .block hhead (by simp) (ih hs.2.2) hline (by simp) hline (by simp)
      simpa using hblock
  · intro span names value hs
    rw [Node.printOne]
    exact .assign (spread_spaced (by simp))
  · intro n hfunction hassign hs
    have hn : n.Expression := by
      cases n with
      | function span name params body =>
        cases body with
        | list inner items => exact (hfunction _ _ _ _ _ rfl).elim
        | _ => simp [Node.Statement] at hs
      | assign span names value => exact (hassign _ _ _ rfl).elim
      | _ => simpa [Node.Statement] using hs
    rw [Node.printOne]
    · exact .expression hn (spread_spaced (Node.tokens_ne_nil hn))
    · exact hfunction
    · exact hassign
  · intro _
    rw [Node.print]
    exact .nil
  · intro n ih hs
    rw [Node.Statements] at hs
    rw [Node.print]
    exact ih hs.1
  · intro n ns hne ihn ihns hs
    rw [Node.Statements] at hs
    rw [Node.print.eq_3 _ _ hne]
    cases ns with
    | nil => exact (hne rfl).elim
    | cons m ns => simpa using Writes.cons (ihn hs.1) (b := ['\n']) (by simp [Loose]) (by simp) (ihns hs.2)

/-- **Parsing inverts printing.** Every program of the language can be written, and every text of it
is read as that program, up to spans, if enough nesting is allowed. -/
theorem Node.parse_writes {ss : List Node} (hs : Statements ss) :
    Writes ss (print ss) ∧ ∀ cs b b', Writes ss cs → Loose b → Loose b' →
      ∀ limit, (b ++ (cs ++ b')).length ≤ limit →
        ∃ n, parseWithin limit (String.ofList (b ++ (cs ++ b'))) = .ok n ∧ n.bare = (list .none ss).bare :=
  ⟨writes_print hs, fun _ _ _ h hb hb' _ hlimit => h.parseWithin hs hb hb' hlimit⟩

/-- A program with a function, an assignment, operators of all forms, calls, a select and literals. -/
def sampleProgram : List Node :=
  let name (s : String) : Node := .ident .none s
  let int (i : Int64) : Node := .literal .none (.int i)
  [.function .none "f" ["a", "b"] (.list .none
      [.assign .none ["c"]
        (.ofBinary (.ofUnary "-" .none (.ofBinary (name "a") "+" .none (int 1))) "*" .none (name "b")),
        .ofCall (.ofField (name "c") "x" 0) [.literal .none (.str "q\"\n"), name "fnord"] 0]),
    .ofBinary (.ofBinary (.ofCall (name "f") [int 1, int 2] 0) "-" .none (int 3)) "<=" .none
      (.ofBinary (int 4) "-" .none (.ofBinary (int 5) "-" .none (int 6)))]

theorem Node.parse_writes_sample : ∃ n,
    parseWithin 200 ("fn f ( a , b ) : \x7b\nc = - ( a + 1 ) * b\nc . x ( \"q\\\"\\n\" , fnord )\n\x7d\n" ++
      "f ( 1 , 2 ) - 3 <= 4 - ( 5 - 6 )") = .ok n ∧ n.bare = (list .none sampleProgram).bare := by
  have hs : Statements sampleProgram := by
    simp only [sampleProgram, Statements, Statement, Expression, Expressions, ofBinary, ofUnary, ofCall,
      ofField]
    decide
  have htext : String.ofList ([] ++ (print sampleProgram ++ [])) =
      "fn f ( a , b ) : \x7b\nc = - ( a + 1 ) * b\nc . x ( \"q\\\"\\n\" , fnord )\n\x7d\n" ++
        "f ( 1 , 2 ) - 3 <= 4 - ( 5 - 6 )" := by decide +kernel
  have hlength : ([] ++ (print sampleProgram ++ [])).length ≤ 200 := by decide +kernel
  rw [← htext]
  exact (parse_writes hs).2 _ [] [] (parse_writes hs).1 (by simp [Loose]) (by simp [Loose]) 200 hlength

end Dataflow
