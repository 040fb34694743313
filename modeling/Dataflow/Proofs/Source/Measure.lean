import Dataflow.Proofs.Grammar.Matches
import Dataflow.Proofs.Source.Lexemes

/-!
# Measuring texts

The measure goes through a text character by character. It knows where literals and comments end as
long as no comment ends at a carriage return inside a line, for which it goes on to the line feed.

* `Nesting.after`, `Nesting.peak`: the measure behind a text and the deepest level on the way;
* `Nesting.Tidy`: texts in which every comment takes up the rest of its line;
* `signPeak`, `signRun`: runs of `-` and `!`;
* `Nesting.Clean.skip`, `Nesting.Clean.string`: the measure behind blanks and behind a literal;
* **`Nesting.checkFrom_cases`**: a text is refused exactly if its deepest level is above the limit.
-/

namespace Dataflow

open Grammar Pattern Rule

/-! ## Runs of signs -/

/-- A sign: what a unary operator is written with. -/
def isSign (c : Char) : Bool := c == '-' || c == '!'

/-- The length of the run of signs behind some characters, of which it is known which are signs. -/
def signRun (run : Nat) : List Bool → Nat
  | [] => run
  | sign :: rest => signRun (if sign then run + 1 else 0) rest

/-- The length of the longest run of signs on the way. -/
def signPeak (run : Nat) : List Bool → Nat
  | [] => run
  | sign :: rest => max run (signPeak (if sign then run + 1 else 0) rest)

theorem le_signPeak (run : Nat) (marks : List Bool) : run ≤ signPeak run marks := by
  cases marks with
  | nil => exact Nat.le_refl run
  | cons sign rest => exact Nat.le_max_left ..

theorem signRun_le_signPeak (run : Nat) (marks : List Bool) :
    signRun run marks ≤ signPeak run marks := by
  induction marks generalizing run with
  | nil => exact Nat.le_refl run
  | cons sign rest ih => exact (ih _).trans (Nat.le_max_right ..)

theorem signRun_mono {run run' : Nat} (h : run ≤ run') (marks : List Bool) :
    signRun run marks ≤ signRun run' marks := by
  induction marks generalizing run run' with
  | nil => exact h
  | cons sign rest ih => exact ih (by split <;> omega)

theorem signPeak_mono {run run' : Nat} (h : run ≤ run') (marks : List Bool) :
    signPeak run marks ≤ signPeak run' marks := by
  induction marks generalizing run run' with
  | nil => exact h
  | cons sign rest ih => exact max_le_max h (ih (by split <;> omega))

theorem signRun_of_signless {marks : List Bool} (hne : marks ≠ [])
    (h : ∀ sign ∈ marks, sign = false) (run : Nat) : signRun run marks = 0 := by
  induction marks generalizing run with
  | nil => exact absurd rfl hne
  | cons sign rest ih =>
    rw [h sign (List.mem_cons_self ..), signRun]
    cases rest with
    | nil => rfl
    | cons next rest => exact ih (by simp) (fun x hx => h x (List.mem_cons_of_mem _ hx)) _

theorem signPeak_of_signless {marks : List Bool} (h : ∀ sign ∈ marks, sign = false) (run : Nat) :
    signPeak run marks = run := by
  induction marks generalizing run with
  | nil => rfl
  | cons sign rest ih =>
    rw [h sign (List.mem_cons_self ..), signPeak, ih fun x hx => h x (List.mem_cons_of_mem _ hx)]
    exact max_eq_left (Nat.zero_le run)

namespace Nesting

/-! ## Through a text -/

/-- The measure behind a text. -/
def after (s : Nesting) (cs : List Char) : Nesting := cs.foldl step s

/-- The deepest level on the way through a text. -/
def peak (s : Nesting) : List Char → Nat
  | [] => s.depth
  | c :: cs => max s.depth ((s.step c).peak cs)

theorem depth_le_peak (s : Nesting) (cs : List Char) : s.depth ≤ s.peak cs := by
  cases cs with
  | nil => exact Nat.le_refl _
  | cons c cs => exact Nat.le_max_left ..

theorem peak_append (s : Nesting) (cs ds : List Char) :
    s.peak (cs ++ ds) = max (s.peak cs) ((s.after cs).peak ds) := by
  induction cs generalizing s with
  | nil => exact (max_eq_right (depth_le_peak s ds)).symm
  | cons c cs ih =>
    rw [List.cons_append, peak, peak, ih, max_assoc]
    rfl

theorem depth_after_le_peak (s : Nesting) (cs : List Char) : (s.after cs).depth ≤ s.peak cs := by
  induction cs generalizing s with
  | nil => exact Nat.le_refl _
  | cons c cs ih => exact (ih _).trans (Nat.le_max_right ..)

/-- **A text is refused exactly if its deepest level is above the limit.** -/
theorem checkFrom_cases {limit offset : Nat} {s : Nesting} {cs : List Char} (hs : s.depth ≤ limit) :
    s.peak cs ≤ limit ∧ s.checkFrom limit offset cs = .ok () ∨
      limit < s.peak cs ∧
        ∃ depth span, s.checkFrom limit offset cs = .error ⟨.tooDeep depth limit, span⟩ := by
  induction cs generalizing s offset with
  | nil => exact .inl ⟨hs, rfl⟩
  | cons c cs ih =>
    rw [checkFrom, peak]
    by_cases hc : limit < (s.step c).depth
    · have := depth_le_peak (s.step c) cs
      rw [if_pos hc]
      exact .inr ⟨by omega, _, _, rfl⟩
    · rw [if_neg hc]
      refine (ih (Nat.le_of_not_lt hc)).imp (fun h => ⟨max_le hs h.1, h.2⟩) fun h => ⟨?_, h.2⟩
      exact lt_of_lt_of_le h.1 (Nat.le_max_right ..)

/-- From one measure to another through a text, with the deepest level on the way. -/
def Passes (s : Nesting) (r : List Char) (k : Nat) (s' : Nesting) (r' : List Char) : Prop :=
  ∃ cs, r = cs ++ r' ∧ s.after cs = s' ∧ s.peak cs = k

section Passes

variable {s s' s'' : Nesting} {r r' r'' : List Char} {k k' : Nat}

theorem Passes.refl (s : Nesting) (r : List Char) : Passes s r s.depth s r := ⟨[], rfl, rfl, rfl⟩

theorem Passes.trans (h : Passes s r k s' r') (h' : Passes s' r' k' s'' r'') :
    Passes s r (max k k') s'' r'' := by
  obtain ⟨cs, rfl, rfl, rfl⟩ := h
  obtain ⟨ds, rfl, rfl, rfl⟩ := h'
  exact ⟨cs ++ ds, (List.append_assoc ..).symm, List.foldl_append, peak_append s cs ds⟩

theorem Passes.one (s : Nesting) (c : Char) (r : List Char) :
    Passes s (c :: r) (max s.depth (s.step c).depth) (s.step c) r := ⟨[c], rfl, rfl, rfl⟩

theorem Passes.start_le (h : Passes s r k s' r') : s.depth ≤ k := by
  obtain ⟨cs, -, -, rfl⟩ := h
  exact depth_le_peak s cs

theorem Passes.stop_le (h : Passes s r k s' r') : s'.depth ≤ k := by
  obtain ⟨cs, -, rfl, rfl⟩ := h
  exact depth_after_le_peak s cs

theorem Passes.peak_eq (h : Passes s r k s' []) : s.peak r = k := by
  obtain ⟨cs, rfl, -, hk⟩ := h
  rw [List.append_nil, hk]

/-- One more character that changes nothing. -/
theorem Passes.still {c : Char} (h : Passes s r k s' (c :: r')) (hc : s'.step c = s') :
    Passes s r k s' r' := by
  have := h.trans (.one s' c r')
  rwa [hc, max_self, max_eq_left h.stop_le] at this

end Passes

/-! ## Comments -/

/-- Whether every comment takes up the rest of its line: a carriage return in a comment stands before
a line feed or at the end of the text. -/
def Tidy (s : Nesting) : List Char → Prop
  | [] => True
  | c :: cs =>
    (s.place = .comment → c = '\r' → cs.head? ∈ [none, some '\n']) ∧ (s.step c).Tidy cs

/-- What is tidy can be computed. -/
instance decidableTidy (s : Nesting) : (cs : List Char) → Decidable (s.Tidy cs)
  | [] => .isTrue trivial
  | c :: cs =>
    have := decidableTidy (s.step c) cs
    inferInstanceAs (Decidable (_ ∧ _))

theorem Passes.tidy {s s' : Nesting} {r r' : List Char} {k : Nat} (h : Passes s r k s' r')
    (ht : s.Tidy r) : s'.Tidy r' := by
  obtain ⟨cs, rfl, rfl, -⟩ := h
  induction cs generalizing s with
  | nil => exact ht
  | cons c cs ih => exact ih ht.2

/-- Where tokens end: in code, or in a comment at the end of a line. -/
structure Clean (s : Nesting) (r : List Char) : Prop where
  tidy : s.Tidy r
  place : s.place = .code ∨ s.place = .comment ∧ s.run = 0 ∧ ∀ x ∈ r.head?, x = '\n'

/-- There are no blanks at the start of a text. -/
def Fresh (r : List Char) : Prop := ∀ x ∈ r.head?, isBlank x = false

/-- What blanks make of a measure: a comment ends a run. -/
def Rested (s s' : Nesting) : Prop := s' = s ∨ s' = { s with place := .comment, run := 0 }

/-- The length of the run at a measure, as far as it can matter: no expression goes on behind a
comment. -/
def RunIs (s : Nesting) (run : Nat) : Prop := s.run = run ∨ s.place = .comment ∧ s.run = 0

theorem Rested.brackets_eq {s s' : Nesting} (h : Rested s s') : s'.brackets = s.brackets := by
  obtain rfl | rfl := h <;> rfl

theorem Rested.run_eq {s s' : Nesting} (h : Rested s s') : s'.run = s.run ∨ s'.run = 0 := by
  obtain rfl | rfl := h
  · exact .inl rfl
  · exact .inr rfl

theorem Rested.depth_le {s s' : Nesting} (h : Rested s s') : s'.depth ≤ s.depth := by
  obtain rfl | rfl := h
  · exact Nat.le_refl _
  · exact Nat.le_add_right _ _

/-- Behind blanks the measure is no deeper than it has been. -/
theorem Rested.join {s s' : Nesting} {k : Nat} (h : Rested s s') (hk : s.depth ≤ k) :
    max k s'.depth = k :=
  max_eq_left (h.depth_le.trans hk)

theorem Rested.join_max {s s' : Nesting} {k : Nat} (h : Rested s s') (hk : s.depth ≤ k) (d : Nat) :
    max k (max s'.depth d) = max k d := by
  rw [← max_assoc, h.join hk]

theorem Rested.runIs {s s' : Nesting} (h : Rested s s') {run : Nat} (hs : RunIs s run) :
    RunIs s' run := by
  obtain rfl | rfl := h
  · exact hs
  · exact .inr ⟨rfl, rfl⟩

section Steps

variable {s : Nesting} (hs : s.place = .code) {c : Char}
include hs

theorem step_blank (hc : isBlank c = true) : s.step c = s := by
  have hcases : c = ' ' ∨ c = '\t' ∨ c = '\r' := by simpa [isBlank, or_assoc] using hc
  obtain rfl | rfl | rfl := hcases <;> simp [step, hs]

theorem step_hash : s.step '#' = { s with place := .comment, run := 0 } := by simp [step, hs]

theorem step_quote : s.step '"' = { s with place := .string, run := 0 } := by simp [step, hs]

theorem step_line : s.step '\n' = { s with run := 0 } := by simp [step, hs]

theorem step_open (hc : c = '(' ∨ c = '\x7b') :
    s.step c = { s with brackets := s.brackets + 1, run := 0 } := by
  obtain rfl | rfl := hc <;> simp [step, hs]

theorem step_close (hc : c = ')' ∨ c = '\x7d') :
    s.step c = { s with brackets := s.brackets - 1, run := 0 } := by
  obtain rfl | rfl := hc <;> simp [step, hs]

end Steps

/-- The blanks and the characters that open or close something. -/
def special : List Char := ['"', '#', ' ', '\t', '\r', '(', '\x7b', ')', '\x7d']

/-- A character of code that is no blank and neither opens nor closes anything. -/
def isPlain (c : Char) : Bool := c ∉ special

theorem plain_of {f : Char → Bool} (hf : ∀ x ∈ special, f x = false) {c : Char} (h : f c = true) :
    isPlain c = true := by
  by_contra hc
  have hmem : c ∈ special := by simpa [isPlain] using hc
  rw [hf c hmem] at h
  cases h

theorem step_plain {s : Nesting} (hs : s.place = .code) {c : Char} (hc : isPlain c = true) :
    s.step c = { s with run := if isSign c then s.run + 1 else 0 } := by
  have hne : ∀ x ∈ special, c ≠ x := by
    rintro x hx rfl
    simp [isPlain, hx] at hc
  simp only [special, List.forall_mem_cons, List.not_mem_nil, false_implies, implies_true, and_true] at hne
  obtain ⟨h₁, h₂, h₃, h₄, h₅, h₆, h₇, h₈, h₉⟩ := hne
  rw [step]
  simp only [hs, h₁, h₂, h₃, h₄, h₅, h₆, h₇, h₈, h₉, if_false, or_self, isSign, Bool.or_eq_true,
    beq_iff_eq]
  split <;> rfl

/-- Plain characters only lengthen the run or end it. -/
theorem passes_plain {s : Nesting} (hs : s.place = .code) {cs : List Char}
    (h : ∀ x ∈ cs, isPlain x = true) (r : List Char) :
    Passes s (cs ++ r) (s.brackets + signPeak s.run (cs.map isSign))
      { s with run := signRun s.run (cs.map isSign) } r := by
  induction cs generalizing s with
  | nil => exact Passes.refl s r
  | cons c cs ih =>
    have hstep := step_plain hs (h c (List.mem_cons_self ..))
    have hone := Passes.one s c (cs ++ r)
    rw [hstep] at hone
    have hall := hone.trans (ih (s := { s with run := if isSign c then s.run + 1 else 0 }) hs
      fun x hx => h x (List.mem_cons_of_mem _ hx))
    have hpeak := le_signPeak (if isSign c then s.run + 1 else 0) (cs.map isSign)
    have hk : s.brackets + signPeak s.run ((c :: cs).map isSign) =
        max (max (s.brackets + s.run) (s.brackets + if isSign c then s.run + 1 else 0))
          (s.brackets + signPeak (if isSign c then s.run + 1 else 0) (cs.map isSign)) := by
      rw [List.map_cons, signPeak]
      omega
    rw [hk]
    exact hall

/-- A line ends nowhere else than at its end. -/
theorem ne_of_fails_lineEnd {m : Mode} {c : Cursor} (h : grammar.Fails m lineEnd c) {x : Char}
    {r : List Char} (hc : c.rest = x :: r) : x ≠ '\n' ∧ x ≠ '\r' := by
  obtain ⟨hfeed, hreturn⟩ := h.of_alt
  refine ⟨?_, ?_⟩
  · rintro rfl
    exact hfeed.of_text r hc
  · rintro rfl
    exact hreturn.of_alt.2.of_text r hc

theorem head_of_takes_lineEnd {m : Mode} {c d : Cursor} {ts : List (Tree Rule)}
    (h : grammar.Takes m lineEnd c d ts) : ∀ x ∈ c.rest.head?, x = '\n' ∨ x = '\r' := by
  obtain h | h := h.of_alt
  · rw [h.of_text.1]
    simp
  · obtain h | h := h.of_alt <;> rw [h.of_text.1] <;> simp

/-- A comment goes on to the end of its line. -/
theorem passes_comment {s : Nesting} (hs : s.place = .comment) {c d : Cursor} {ts : List (Tree Rule)}
    (h : grammar.Takes .tight (.star (.seq (.absent lineEnd) anyChar)) c d ts) :
    Passes s c.rest s.depth s d.rest ∧ ∀ x ∈ d.rest.head?, x = '\n' ∨ x = '\r' := by
  obtain ⟨hline, hfails⟩ := h.star_induct (I := fun e => Passes s c.rest s.depth s e.rest)
    (Passes.refl s _) fun e f _ he hone => by
      obtain ⟨e₁, e₂, t₁, t₂, habsent, hskip, hany, -⟩ := hone.exists_seq
      cases hskip
      obtain ⟨rfl, -, hend⟩ := habsent.of_absent
      obtain ⟨x, hx, -, -⟩ := hany.of_satisfy
      rw [hx] at he
      exact he.still (by simp [step, hs, (ne_of_fails_lineEnd hend hx).1])
  refine ⟨hline, ?_⟩
  obtain habsent | ⟨e, t, habsent, hany⟩ := hfails.of_seq_tight
  · obtain ⟨e, t, hend⟩ := habsent.of_absent
    exact head_of_takes_lineEnd hend
  · obtain ⟨rfl, -, -⟩ := habsent.of_absent
    exact fun x hx => Bool.noConfusion (hany.of_satisfy x hx)

/-- Behind a comment only the end of a line can be skipped. -/
theorem passes_line {s : Nesting} (hs : s.place = .comment) {c d : Cursor} {ts : List (Tree Rule)}
    (h : grammar.Takes .tight (.star (.satisfy isBlank)) c d ts) (ht : s.Tidy c.rest)
    (hc : ∀ x ∈ c.rest.head?, x = '\n' ∨ x = '\r') :
    Passes s c.rest s.depth s d.rest ∧ ∀ x ∈ d.rest.head?, x = '\n' := by
  obtain ⟨⟨hline, hend⟩, hfails⟩ := h.star_induct
    (I := fun e => Passes s c.rest s.depth s e.rest ∧ ∀ x ∈ e.rest.head?, x = '\n' ∨ x = '\r')
    ⟨Passes.refl s _, hc⟩ fun e f _ he hone => by
      obtain ⟨x, hx, hblank, -⟩ := hone.of_satisfy
      have hreturn : x = '\r' := by
        refine (he.2 x (by rw [hx]; rfl)).resolve_left ?_
        rintro rfl
        cases hblank
      have htidy := he.1.tidy ht
      rw [hx] at htidy
      have hpass := he.1
      rw [hx] at hpass
      subst hreturn
      refine ⟨hpass.still (by simp [step, hs]), fun y hy => ?_⟩
      have hnext := htidy.1 hs rfl
      rw [Option.mem_def.mp hy] at hnext
      exact .inl (by simpa using hnext)
  refine ⟨hline, fun x hx => (hend x hx).resolve_right ?_⟩
  rintro rfl
  exact Bool.noConfusion (hfails.of_satisfy _ hx)

/-- **Blanks leave the measure as it is**, but a comment ends a run. -/
theorem Clean.skip {s : Nesting} {c d : Cursor} (h : Clean s c.rest)
    (hs : grammar.Skips .spaced c d) :
    ∃ s', Passes s c.rest s.depth s' d.rest ∧ Clean s' d.rest ∧ Fresh d.rest ∧ Rested s s' := by
  obtain ⟨ts, ht⟩ := hs
  obtain ⟨c₁, c₂, t₁, t₂, hblanks, hskip, hcomments, -⟩ := ht.exists_seq
  cases hskip
  obtain ⟨⟨hpass, hplace⟩, hfails⟩ := hblanks.star_induct
    (I := fun e => Passes s c.rest s.depth s e.rest ∧ (s.place = .code ∨ e = c)) ⟨.refl .., .inr rfl⟩
    fun e f _ he hone => by
      obtain ⟨x, hx, hblank, -⟩ := hone.of_satisfy
      have hcode : s.place = .code := by
        refine h.place.resolve_right fun hcomment => ?_
        obtain hcode | rfl := he.2
        · rw [hcode] at hcomment
          cases hcomment.1
        · rw [hcomment.2.2 x (by rw [hx]; rfl)] at hblank
          cases hblank
      have hpass := he.1
      rw [hx] at hpass
      exact ⟨hpass.still (step_blank hcode hblank), .inl hcode⟩
  have hclean : Clean s c₁.rest := by
    refine ⟨hpass.tidy h.tidy, ?_⟩
    obtain hcode | rfl := hplace
    · exact .inl hcode
    · exact h.place
  refine (hcomments.star_induct (I := fun e => ∃ s', Passes s c.rest s.depth s' e.rest ∧
    Clean s' e.rest ∧ Fresh e.rest ∧ Rested s s') ⟨s, hpass, hclean, hfails.of_satisfy, .inl rfl⟩ ?_).1
  rintro e f _ ⟨s', hpass, hclean, hfresh, hrested⟩ hone
  obtain ⟨e₁, e₂, t₃, t₄, hcomment, hskip, hline, -⟩ := hone.exists_seq
  cases hskip
  obtain ⟨e₃, e₄, t₅, t₆, hhash, hskip, hrest, -⟩ := hcomment.exists_seq
  cases hskip
  have hhash := hhash.of_text.1
  have hcode : s'.place = .code := by
    refine hclean.place.resolve_right fun hcomment => ?_
    have := hcomment.2.2 '#' (by rw [hhash]; rfl)
    cases this
  -- a comment has not been met before, since it would have gone on to the end of the line
  have hsame : s' = s := by
    refine hrested.resolve_right fun hcomment => ?_
    rw [hcomment] at hcode
    cases hcode
  subst hsame
  rw [show e.rest = '#' :: e₃.rest from hhash] at hpass
  have hstart := hpass.trans (Passes.one s' '#' e₃.rest)
  rw [step_hash hcode] at hstart
  obtain ⟨hpass₁, hend⟩ :=
    passes_comment (s := { s' with place := .comment, run := 0 }) rfl hrest
  obtain ⟨hpass₂, hlast⟩ := passes_line rfl hline (hpass₁.tidy (hstart.tidy h.tidy)) hend
  have hall := (hstart.trans hpass₁).trans hpass₂
  refine ⟨_, ?_, ⟨hall.tidy h.tidy, .inr ⟨rfl, rfl, hlast⟩⟩, fun x hx => ?_, .inr rfl⟩
  · convert hall using 1
    simp only [depth]
    omega
  · rw [hlast x hx]
    rfl

/-! ## Words and tokens -/

section Tokens

variable {s : Nesting} {r : List Char}

/-- Only the end of a line follows a comment. -/
theorem Clean.code {x : Char} (h : Clean s (x :: r)) (hx : x ≠ '\n') : s.place = .code :=
  h.place.resolve_right fun hcomment => hx (hcomment.2.2 x rfl)

theorem Clean.plain {cs : List Char} (h : Clean s (cs ++ r)) (hcs : ∀ x ∈ cs, isPlain x = true)
    (hhead : ∃ x ∈ cs.head?, x ≠ '\n') :
    s.place = .code ∧ Passes s (cs ++ r) (s.brackets + signPeak s.run (cs.map isSign))
      { s with run := signRun s.run (cs.map isSign) } r ∧
      Clean { s with run := signRun s.run (cs.map isSign) } r := by
  obtain ⟨x, hx, hne⟩ := hhead
  obtain ⟨xs, rfl⟩ : ∃ xs, cs = x :: xs := by
    cases cs with
    | nil => cases hx
    | cons y ys =>
      cases hx
      exact ⟨ys, rfl⟩
  have hcode : s.place = .code := h.code hne
  have hpass := passes_plain hcode hcs r
  exact ⟨hcode, hpass, hpass.tidy h.tidy, .inl hcode⟩

theorem Clean.opens {x : Char} (h : Clean s (x :: r)) (hx : x = '(' ∨ x = '\x7b') :
    s.place = .code ∧
      Passes s (x :: r) (max s.depth (s.brackets + 1)) ⟨.code, s.brackets + 1, 0⟩ r ∧
      Clean ⟨.code, s.brackets + 1, 0⟩ r := by
  have hcode : s.place = .code := h.code (by obtain rfl | rfl := hx <;> decide)
  have hpass := Passes.one s x r
  rw [step_open hcode hx, hcode] at hpass
  exact ⟨hcode, hpass, hpass.tidy h.tidy, .inl rfl⟩

theorem Clean.closes {x : Char} (h : Clean s (x :: r)) (hx : x = ')' ∨ x = '\x7d') :
    Passes s (x :: r) s.depth ⟨.code, s.brackets - 1, 0⟩ r ∧ Clean ⟨.code, s.brackets - 1, 0⟩ r := by
  have hcode : s.place = .code := h.code (by obtain rfl | rfl := hx <;> decide)
  have hpass := Passes.one s x r
  rw [step_close hcode hx, hcode, max_eq_left] at hpass
  · exact ⟨hpass, hpass.tidy h.tidy, .inl rfl⟩
  · simp only [depth]
    omega

/-- A line feed ends comments and runs. -/
theorem Clean.line (h : Clean s ('\n' :: r)) :
    Passes s ('\n' :: r) s.depth ⟨.code, s.brackets, 0⟩ r ∧ Clean ⟨.code, s.brackets, 0⟩ r := by
  have hstep : s.step '\n' = ⟨.code, s.brackets, 0⟩ := by
    obtain hcode | ⟨hcomment, hrun, -⟩ := h.place
    · rw [step_line hcode, hcode]
    · simp [step, hcomment, hrun]
  have hpass := Passes.one s '\n' r
  rw [hstep, max_eq_left] at hpass
  · exact ⟨hpass, hpass.tidy h.tidy, .inl rfl⟩
  · simp only [depth]
    omega

/-- A string literal ends where the measure sees it end. -/
theorem Clean.string {c d : Cursor} {ts : List (Tree Rule)} (h : Clean s c.rest)
    (ht : grammar.Takes .tight (body .string) c d ts) :
    s.place = .code ∧ Passes s c.rest s.depth { s with run := 0 } d.rest ∧
      Clean { s with run := 0 } d.rest := by
  obtain ⟨c₁, c₂, t₁, t₂, hopen, hskip, hrest, -⟩ := ht.exists_seq
  cases hskip
  obtain ⟨c₃, c₄, t₃, t₄, hchars, hskip, hclose, -⟩ := hrest.exists_seq
  cases hskip
  have hopen : c.rest = '"' :: c₁.rest := hopen.of_text.1
  have hclose : c₃.rest = '"' :: d.rest := hclose.of_text.1
  rw [hopen] at h
  have hcode := h.code (by decide)
  have hstart := Passes.one s '"' c₁.rest
  rw [step_quote hcode] at hstart
  have hinside := (hchars.star_induct (I := fun e =>
    Passes s ('"' :: c₁.rest) s.depth { s with place := .string, run := 0 } e.rest) ?_ ?_).1
  · rw [hclose] at hinside
    have hall := hinside.trans (Passes.one _ '"' d.rest)
    have hstep : Nesting.step { s with place := .string, run := 0 } '"' = { s with run := 0 } := by
      simp [step, hcode]
    rw [hstep, max_eq_left] at hall
    · rw [hopen]
      exact ⟨hcode, hall, hall.tidy h.tidy, .inl hcode⟩
    · simp only [depth]
      omega
  · rw [max_eq_left] at hstart
    · exact hstart
    · simp only [depth]
      omega
  · intro e f _ he hone
    obtain hone | hone := hone.of_alt
    · obtain ⟨e₁, e₂, t₅, t₆, habsent, hskip, hany, -⟩ := hone.exists_seq
      cases hskip
      obtain ⟨rfl, -, hfails⟩ := habsent.of_absent
      obtain ⟨x, hx, -, -⟩ := hany.of_satisfy
      obtain ⟨hquote, hfails⟩ := hfails.of_alt
      obtain ⟨hslash, hend⟩ := hfails.of_alt
      have h₁ : x ≠ '"' := by
        rintro rfl
        exact hquote.of_text _ hx
      have h₂ : x ≠ '\\' := by
        rintro rfl
        exact hslash.of_text _ hx
      rw [hx] at he
      exact he.still (by simp [step, h₁, h₂, (ne_of_fails_lineEnd hend hx).1])
    · obtain ⟨e₁, e₂, t₅, t₆, hslash, hskip, hany, -⟩ := hone.exists_seq
      cases hskip
      obtain ⟨x, hx, -, -⟩ := hany.of_satisfy
      rw [show e.rest = '\\' :: e₁.rest from hslash.of_text.1, hx] at he
      have hall := (he.trans (Passes.one _ '\\' (x :: f.rest))).trans (Passes.one _ x f.rest)
      have hstep : Nesting.step (Nesting.step { s with place := .string, run := 0 } '\\') x =
          { s with place := .string, run := 0 } := by
        simp [step]
      rw [hstep] at hall
      have hpeak : s.depth = max (max s.depth (max (s.brackets + 0) (s.brackets + 0)))
          (max (s.brackets + 0) (s.brackets + 0)) := by
        simp only [depth]
        omega
      rw [hpeak]
      exact hall

end Tokens

end Nesting

end Dataflow
