import Dataflow.Proofs.Source.Levels

/-!
# The measure of a match

Where a pattern matches, the measure finds the levels of the match, except that it takes every `-`
and `!` of the code for a unary operator. What is known of the measure before and behind a match
depends on the pattern: words, names, whole expressions, their items, text in brackets.

* `Gauged`: what the measure does where a pattern matches, and its laws for each kind of pattern;
* `Flat`, `Ends`, `Parted`, `Begun`, `Chained`: what is known for which pattern;
* `Joins`: what is known of two parts together.
-/

namespace Dataflow

open Grammar Pattern Rule Nesting Dataflow.Tree

/-! ## What the measure does where a pattern matches -/

/-- What can be said of the measure before a match, the trees of the match, the measure behind it and
the deepest level on the way. -/
abbrev Gauge := Nesting → List (Tree Rule) → Nesting → Nat → Prop

namespace Gauge

/-- What the measure does where a pattern matches, with recursion at most `n` deep. -/
def Gauged (n : Nat) (p : Pattern Rule) (P : Gauge) : Prop :=
  ∀ i ≤ n, ∀ {c d ts}, grammar.outcome i .spaced p c = .done d ts → ∀ {s}, Clean s c.rest →
    Fresh c.rest → ∃ s' k, Passes s c.rest k s' d.rest ∧ Clean s' d.rest ∧ P s ts s' k

section Laws

variable {n n' : Nat} {a b p : Pattern Rule} {P Q T : Gauge}

theorem Gauged.le (h : Gauged n p P) (hn : n' ≤ n) : Gauged n' p P :=
  fun i hi => h i (hi.trans hn)

theorem Gauged.zero : Gauged 0 p P := by
  intro i hi c d ts h
  cases Nat.le_zero.mp hi
  cases h

theorem Gauged.mono (h : Gauged n p P)
    (hPQ : ∀ {s ts s' k}, P s ts s' k → s.depth ≤ k → s'.depth ≤ k → Q s ts s' k) :
    Gauged n p Q := by
  intro i hi c d ts ho s hs hf
  obtain ⟨s', k, hp, hc, hP⟩ := h i hi ho hs hf
  exact ⟨s', k, hp, hc, hPQ hP hp.start_le hp.stop_le⟩

/-- How what holds of two parts is joined: there may be blanks between them. -/
def Joins (P Q T : Gauge) : Prop := ∀ {s ts s₁ k s₂ us s₃ l}, P s ts s₁ k → Rested s₁ s₂ →
  Q s₂ us s₃ l → s.depth ≤ k → s₁.depth ≤ k → s₂.depth ≤ l → s₃.depth ≤ l →
  T s (ts ++ us) s₃ (max k l)

theorem Gauged.seq (ha : Gauged n a P) (hb : Gauged n b Q) (h : Joins P Q T) :
    Gauged n (.seq a b) T := by
  intro i hi c d ts ho s hs hf
  cases i with
  | zero => cases ho
  | succ i =>
    rw [outcome_seq] at ho
    obtain ⟨c₁, t₁, h₁, ho⟩ | ⟨-, ho⟩ := Matched.elim_eq_done ho
    · obtain ⟨c₂, t₂, hskip, ho⟩ | ⟨-, ho⟩ := Matched.elim_eq_done ho
      · obtain ⟨c₃, t₃, h₃, ho⟩ | ⟨-, ho⟩ := Matched.elim_eq_done ho
        · cases ho
          obtain ⟨s₁, k, hp₁, hc₁, hP⟩ := ha i (by omega) h₁ hs hf
          obtain ⟨s₂, hp₂, hc₂, hf₂, hr⟩ := hc₁.skip (skips_of_skipped hskip)
          obtain ⟨s₃, l, hp₃, hc₃, hQ⟩ := hb i (by omega) h₃ hc₂ hf₂
          have hall := (hp₁.trans hp₂).trans hp₃
          rw [max_eq_left hp₁.stop_le] at hall
          exact ⟨s₃, max k l, hall, hc₃,
            h hP hr hQ hp₁.start_le hp₁.stop_le hp₃.start_le hp₃.stop_le⟩
        · cases ho
      · cases ho
    · cases ho

theorem Gauged.alt (ha : Gauged n a P) (hb : Gauged n b P) : Gauged n (.alt a b) P := by
  intro i hi c d ts ho s hs hf
  cases i with
  | zero => cases ho
  | succ i =>
    rw [outcome_alt] at ho
    obtain ⟨c₁, t₁, h₁, ho⟩ | ⟨-, ho⟩ := Matched.elim_eq_done ho
    · cases ho
      exact ha i (by omega) h₁ hs hf
    · exact hb i (by omega) ho hs hf

/-- Nothing is taken. -/
def Still (P : Gauge) : Prop := ∀ s : Nesting, P s [] s s.depth

theorem Gauged.empty (h : Still P) : Gauged n Pattern.empty P := by
  intro i _ c d ts ho s hs _
  obtain ⟨hc, rfl⟩ := Takes.of_text ⟨i, ho⟩
  rw [List.nil_append] at hc
  rw [← hc]
  exact ⟨s, s.depth, .refl s _, hs, h s⟩

theorem Gauged.absent (h : Still P) : Gauged n (.absent a) P := by
  intro i _ c d ts ho s hs _
  obtain ⟨rfl, rfl, -⟩ := Takes.of_absent ⟨i, ho⟩
  exact ⟨s, s.depth, .refl s _, hs, h s⟩

theorem Gauged.star (ha : Gauged n a P) (hnil : Still Q) (h : Joins P Q Q) :
    Gauged n (.star a) Q := by
  have hmore (i : Nat) (hi : i ≤ n) : ∀ {c d ts},
      grammar.outcome i .spaced (.more a) c = .done d ts → ∀ {s}, Clean s c.rest →
      ∃ s₁ s' k, Rested s s₁ ∧ Passes s c.rest (max s.depth k) s' d.rest ∧ Clean s' d.rest ∧
        s₁.depth ≤ k ∧ s'.depth ≤ k ∧ Q s₁ ts s' k := by
    induction i with
    | zero =>
      intro c d ts ho
      cases ho
    | succ i ih =>
      intro c d ts ho s hs
      rw [outcome_more] at ho
      obtain ⟨c₁, t₁, hskip, ho⟩ | ⟨-, ho⟩ := Matched.elim_eq_done ho
      · obtain ⟨s₁, hp₁, hc₁, hf₁, hr⟩ := hs.skip (skips_of_skipped hskip)
        obtain ⟨c₂, t₂, h₂, ho⟩ | ⟨-, ho⟩ := Matched.elim_eq_done ho
        · obtain ⟨c₃, t₃, h₃, ho⟩ | ⟨-, ho⟩ := Matched.elim_eq_done ho
          · cases ho
            obtain ⟨s₂, k, hp₂, hc₂, hP⟩ := ha i (by omega) h₂ hc₁ hf₁
            obtain ⟨s₃, s', l, hr₃, hp₃, hc₃, hle, hle', hQ⟩ := ih (by omega) h₃ hc₂
            have hall := (hp₁.trans hp₂).trans hp₃
            have hk : max (max s.depth k) (max s₂.depth l) = max s.depth (max k l) := by
              rw [max_assoc, ← max_assoc k, max_eq_left hp₂.stop_le]
            rw [hk] at hall
            exact ⟨s₁, s', max k l, hr, hall, hc₃, hp₂.start_le.trans (Nat.le_max_left ..),
              hle'.trans (Nat.le_max_right ..), h hP hr₃ hQ hp₂.start_le hp₂.stop_le hle hle'⟩
          · cases ho
        · cases ho
          refine ⟨s, s, s.depth, .inl rfl, ?_, hs, Nat.le_refl _, Nat.le_refl _, hnil s⟩
          rw [max_self]
          exact .refl s _
      · cases ho
  intro i hi c d ts ho s hs hf
  cases i with
  | zero => cases ho
  | succ i =>
    rw [outcome_star] at ho
    obtain ⟨c₁, t₁, h₁, ho⟩ | ⟨-, ho⟩ := Matched.elim_eq_done ho
    · obtain ⟨c₂, t₂, h₂, ho⟩ | ⟨-, ho⟩ := Matched.elim_eq_done ho
      · cases ho
        obtain ⟨s₁, k, hp₁, hc₁, hP⟩ := ha i (by omega) h₁ hs hf
        obtain ⟨s₂, s', l, hr, hp₂, hc₂, hle, hle', hQ⟩ := hmore i (by omega) h₂ hc₁
        have hall := hp₁.trans hp₂
        have hk : max k (max s₁.depth l) = max k l := by
          rw [← max_assoc, max_eq_left hp₁.stop_le]
        rw [hk] at hall
        exact ⟨s', max k l, hall, hc₂, h hP hr hQ hp₁.start_le hp₁.stop_le hle hle'⟩
      · cases ho
    · cases ho
      exact ⟨s, s.depth, .refl s _, hs, hnil s⟩

theorem Gauged.node {r : Rule} (hr : isToken r = false) (h : Gauged n (body r) P)
    (hPQ : ∀ {s ts s' k} span, P s ts s' k → s.depth ≤ k → s'.depth ≤ k →
      Q s [.node r span ts] s' k) : Gauged (n + 1) (.rule r) Q := by
  intro i hi c d ts ho s hs hf
  cases i with
  | zero => cases ho
  | succ i =>
    rw [outcome_node _ _ _ hr] at ho
    obtain ⟨c₁, t₁, h₁, ho⟩ | ⟨-, ho⟩ := Matched.elim_eq_done ho
    · cases ho
      obtain ⟨s', k, hp, hc, hP⟩ := h i (by omega) h₁ hs hf
      exact ⟨s', k, hp, hc, hPQ _ hP hp.start_le hp.stop_le⟩
    · cases ho

end Laws

/-! ## Gauges -/

/-- Nothing opens: words and names. -/
def Flat : Gauge := fun s ts s' k =>
  s'.brackets = s.brackets ∧ k = s.depth ∧ levels allSigns ts = 0

/-- Nothing opens, and a run does not start. -/
def Quiet : Gauge := fun s ts s' k => Flat s ts s' k ∧ (s.run = 0 → s'.run = 0)

/-- Nothing opens, and no run goes on. -/
def Ends : Gauge := fun s ts s' k => Flat s ts s' k ∧ s'.run = 0

/-- All that is opened is closed, and the levels inside are those of the match. -/
def Parted : Gauge := fun s ts s' k =>
  s'.brackets = s.brackets ∧ k = max s.depth (s.brackets + levels allSigns ts)

/-- The levels inside are those of the match, unless a run goes on. -/
def Begun : Gauge := fun s ts s' k => s.run = 0 → Parted s ts s' k

/-- One level is entered. -/
def Opens : Gauge := fun s ts s' k =>
  s'.brackets = s.brackets + 1 ∧ s'.run = 0 ∧ k = max s.depth (s.brackets + 1) ∧
    levels allSigns ts = 0

/-- One level is left. -/
def Closes : Gauge := fun s ts s' k =>
  s'.brackets = s.brackets - 1 ∧ s'.run = 0 ∧ k = s.depth ∧ levels allSigns ts = 0

/-- The levels of the match, up to the end of the brackets around it. -/
def Inner : Gauge := fun s ts s' k => s.run = 0 →
  s'.brackets = s.brackets - 1 ∧ s'.run = 0 ∧ k = s.brackets + levels allSigns ts

/-- The levels of the match, which stands in brackets. -/
def Enclosed : Gauge := fun s ts s' k =>
  s'.brackets = s.brackets ∧ s'.run = 0 ∧ k = max s.depth (s.brackets + (levels allSigns ts + 1))

/-- Brackets end, and the levels of the match are those of what follows. -/
def Shut : Gauge := fun s ts s' k =>
  s'.brackets = s.brackets - 1 ∧ k = max s.depth (s.brackets - 1 + levels allSigns ts)

/-- Brackets around names, then the levels of the match. -/
def Declares : Gauge := fun s ts s' k =>
  s'.brackets = s.brackets ∧ k = max s.depth (s.brackets + max 1 (levels allSigns ts))

/-- Items of one expression. -/
def Chained : Gauge := fun s ts s' k => s'.brackets = s.brackets ∧ ∀ run, RunIs s run →
  RunIs s' (runBehind allSigns run ts) ∧
    max (s.brackets + run) k = s.brackets + chain allSigns run ts

section Joins

variable {s s' : Nesting} {ts : List (Tree Rule)} {k : Nat}

theorem Flat.parted (h : Flat s ts s' k) : Parted s ts s' k := by
  obtain ⟨hb, rfl, ht⟩ := h
  refine ⟨hb, ?_⟩
  rw [ht]
  simp only [Nesting.depth]
  omega

theorem Ends.quiet (h : Ends s ts s' k) : Quiet s ts s' k := ⟨h.1, fun _ => h.2⟩

theorem Parted.begun (h : Parted s ts s' k) : Begun s ts s' k := fun _ => h

theorem still_quiet : Still Quiet := fun _ => ⟨⟨rfl, rfl, rfl⟩, id⟩

theorem still_parted : Still Parted := fun s => ⟨rfl, by simp [levels, depth]⟩

theorem still_begun : Still Begun := fun s _ => still_parted s

theorem still_chained : Still Chained := by
  refine fun s => ⟨rfl, fun run hrun => ⟨hrun, ?_⟩⟩
  have hle : s.run ≤ run := by
    obtain rfl | ⟨-, h⟩ := hrun <;> omega
  simp only [depth, chain]
  omega

theorem joins_flat : Joins Flat Flat Flat := by
  rintro s ts s₁ k s₂ us s₃ l ⟨hb, rfl, ht⟩ hr ⟨hb', rfl, hu⟩ - hle - -
  refine ⟨(hb'.trans hr.brackets_eq).trans hb, hr.join hle, ?_⟩
  rw [levels_append, ht, hu, max_self]

theorem joins_quiet : Joins Quiet Quiet Quiet := by
  intro s ts s₁ k s₂ us s₃ l h hr h' hk hk₁ hl hl₁
  have := hr.run_eq
  exact ⟨joins_flat h.1 hr h'.1 hk hk₁ hl hl₁, fun hs => h'.2 (by have := h.2 hs; omega)⟩

theorem joins_ends_quiet : Joins Ends Quiet Ends := by
  intro s ts s₁ k s₂ us s₃ l h hr h' hk hk₁ hl hl₁
  have := hr.run_eq
  exact ⟨joins_flat h.1 hr h'.1 hk hk₁ hl hl₁, h'.2 (by have := h.2; omega)⟩

theorem joins_parted : Joins Parted Parted Parted := by
  rintro s ts s₁ k s₂ us s₃ l ⟨hb, rfl⟩ hr ⟨hb', rfl⟩ - hle - -
  have hb₂ : s₂.brackets = s.brackets := hr.brackets_eq.trans hb
  refine ⟨hb'.trans hb₂, ?_⟩
  rw [hr.join_max hle, hb₂, levels_append, max_assoc, Nat.add_max_add_left]

theorem joins_quiet_begun : Joins Quiet Begun Begun := by
  intro s ts s₁ k s₂ us s₃ l h hr h' hk hk₁ hl hl₁ hs
  have := hr.run_eq
  exact joins_parted h.1.parted hr (h' (by have := h.2 hs; omega)) hk hk₁ hl hl₁

theorem joins_ends_begun : Joins Ends Begun Parted := by
  intro s ts s₁ k s₂ us s₃ l h hr h' hk hk₁ hl hl₁
  have := hr.run_eq
  exact joins_parted h.1.parted hr (h' (by have := h.2; omega)) hk hk₁ hl hl₁

theorem joins_opens_inner : Joins Opens Inner Enclosed := by
  rintro s ts s₁ k s₂ us s₃ l ⟨hb, hz, rfl, ht⟩ hr h' - - - -
  have hb₂ : s₂.brackets = s.brackets + 1 := hr.brackets_eq.trans hb
  have hz₂ : s₂.run = 0 := by have := hr.run_eq; omega
  obtain ⟨hb', hz', rfl⟩ := h' hz₂
  refine ⟨by omega, hz', ?_⟩
  rw [levels_append, ht, hb₂, max_assoc]
  congr 1
  omega

theorem joins_begun_closes : Joins Begun Closes Inner := by
  rintro s ts s₁ k s₂ us s₃ l h hr ⟨hb', hz', rfl, hu⟩ - hle - - hs
  obtain ⟨hb, rfl⟩ := h hs
  refine ⟨by rw [hb', hr.brackets_eq, hb], hz', ?_⟩
  rw [hr.join hle, levels_append, hu, depth, hs]
  omega

theorem joins_closes_parted : Joins Closes Parted Shut := by
  rintro s ts s₁ k s₂ us s₃ l ⟨hb, hz, rfl, ht⟩ hr ⟨hb', rfl⟩ - hle - -
  have hb₂ : s₂.brackets = s.brackets - 1 := hr.brackets_eq.trans hb
  refine ⟨hb'.trans hb₂, ?_⟩
  rw [hr.join_max hle, hb₂, levels_append, ht, Nat.zero_max]

theorem joins_flat_shut : Joins Flat Shut Shut := by
  rintro s ts s₁ k s₂ us s₃ l ⟨hb, rfl, ht⟩ hr ⟨hb', rfl⟩ - hle - -
  have hb₂ : s₂.brackets = s.brackets := hr.brackets_eq.trans hb
  refine ⟨by rw [hb', hb₂], ?_⟩
  rw [hr.join_max hle, hb₂, levels_append, ht, Nat.zero_max]

theorem joins_opens_shut : Joins Opens Shut Declares := by
  rintro s ts s₁ k s₂ us s₃ l ⟨hb, hz, rfl, ht⟩ hr ⟨hb', rfl⟩ - hle - -
  have hb₂ : s₂.brackets = s.brackets + 1 := hr.brackets_eq.trans hb
  refine ⟨by rw [hb', hb₂, Nat.add_sub_cancel], ?_⟩
  rw [hr.join_max hle, hb₂, levels_append, ht, Nat.zero_max, Nat.add_sub_cancel, max_assoc,
    Nat.add_max_add_left]

theorem joins_flat_declares : Joins Flat Declares Declares := by
  rintro s ts s₁ k s₂ us s₃ l ⟨hb, rfl, ht⟩ hr ⟨hb', rfl⟩ - hle - -
  have hb₂ : s₂.brackets = s.brackets := hr.brackets_eq.trans hb
  refine ⟨hb'.trans hb₂, ?_⟩
  rw [hr.join_max hle, hb₂, levels_append, ht, Nat.zero_max]

/-- The runs and levels of an expression come from those of its items. -/
theorem joins_chained : Joins Chained Chained Chained := by
  rintro s ts s₁ k s₂ us s₃ l ⟨hb, h⟩ hr ⟨hb', h'⟩ - - - -
  have hb₂ : s₂.brackets = s.brackets := hr.brackets_eq.trans hb
  refine ⟨hb'.trans hb₂, fun run hrun => ?_⟩
  obtain ⟨hrun₁, hk⟩ := h run hrun
  obtain ⟨hrun₂, hl⟩ := h' _ (hr.runIs hrun₁)
  have hle : runBehind allSigns run ts ≤ chain allSigns run ts := runBehind_le_chain run ts
  rw [hb₂] at hl
  rw [runBehind_append, chain_append]
  refine ⟨hrun₂, ?_⟩
  calc max (s.brackets + run) (max k l)
      = max (s.brackets + chain allSigns run ts)
          (max (s.brackets + runBehind allSigns run ts) l) := by
        rw [← max_assoc, hk, ← max_assoc, max_eq_left (Nat.add_le_add_left hle _)]
    _ = s.brackets + max (chain allSigns run ts) (chain allSigns (runBehind allSigns run ts) us) := by
        rw [hl, Nat.add_max_add_left]

theorem joins_begun : Joins Begun Parted Begun :=
  fun h hr h' hk hk₁ hl hl₁ hs => joins_parted (h hs) hr h' hk hk₁ hl hl₁

end Joins

/-! ## Words and tokens -/

/-- Characters of which it is known which are signs. -/
def Marked (marks : List Bool) : Gauge := fun s _ s' k => s.place = .code ∧
  s' = { s with run := signRun s.run marks } ∧ k = s.brackets + signPeak s.run marks

section Marked

variable {marks : List Bool} {s s' : Nesting} {ts us : List (Tree Rule)} {k : Nat} {t : Tree Rule}

theorem Marked.ends (h : Marked marks s ts s' k) (hne : marks ≠ [])
    (hm : ∀ sign ∈ marks, sign = false) (ht : levels allSigns us = 0) : Ends s us s' k := by
  obtain ⟨-, rfl, rfl⟩ := h
  exact ⟨⟨rfl, congrArg _ (signPeak_of_signless hm _), ht⟩, signRun_of_signless hne hm _⟩

/-- An item without levels of its own. -/
theorem Marked.chained (h : Marked (allSigns t) s ts s' k) (ht : level allSigns t = 0) :
    Chained s [t] s' k := by
  obtain ⟨hcode, rfl, rfl⟩ := h
  refine ⟨rfl, fun run hrun => ?_⟩
  obtain rfl : s.run = run := hrun.resolve_right fun h => by
    rw [hcode] at h
    cases h.1
  have := le_signPeak s.run (allSigns t)
  have := signRun_le_signPeak s.run (allSigns t)
  refine ⟨.inl rfl, ?_⟩
  rw [chain, chain, ht]
  omega

/-- An item in brackets. -/
theorem Enclosed.chained (h : Enclosed s ts s' k) (hs : allSigns t = [false])
    (ht : level allSigns t = levels allSigns ts + 1) : Chained s [t] s' k := by
  obtain ⟨hb, hz, rfl⟩ := h
  refine ⟨hb, fun run hrun => ?_⟩
  have hle : s.run ≤ run := by
    obtain rfl | ⟨-, h⟩ := hrun <;> omega
  rw [chain, chain, runBehind, runBehind, hs, ht]
  refine ⟨.inl hz, ?_⟩
  simp only [signPeak, signRun, depth, Bool.false_eq_true, if_false]
  omega

end Marked

section Words

variable {n : Nat} {P : Gauge}

theorem Gauged.text {cs : List Char} (h : ∀ {s r}, Clean s (cs ++ r) →
    ∃ s' k, Passes s (cs ++ r) k s' r ∧ Clean s' r ∧ P s [] s' k) : Gauged n (.text cs) P := by
  intro i _ c d ts ho s hs _
  obtain ⟨hc, rfl⟩ := Takes.of_text ⟨i, ho⟩
  rw [hc] at hs ⊢
  exact h hs

theorem Gauged.alts {ps : List (Pattern Rule)} (hps : ps ≠ []) (h : ∀ p ∈ ps, Gauged n p P) :
    Gauged n (alts ps) P := by
  induction ps with
  | nil => exact absurd rfl hps
  | cons a as ih =>
    cases as with
    | nil => exact h a (by simp)
    | cons b bs =>
      exact (h a (by simp)).alt (ih (by simp) fun p hp => h p (List.mem_cons_of_mem _ hp))

theorem gauged_opens {x : Char} (hx : x = '(' ∨ x = '\x7b') : Gauged n (.text [x]) Opens :=
  .text fun hs => by
    obtain ⟨-, hp, hc⟩ := Clean.opens hs hx
    exact ⟨_, _, hp, hc, rfl, rfl, rfl, rfl⟩

theorem gauged_closes {x : Char} (hx : x = ')' ∨ x = '\x7d') : Gauged n (.text [x]) Closes :=
  .text fun hs => by
    obtain ⟨hp, hc⟩ := Clean.closes hs hx
    exact ⟨_, _, hp, hc, rfl, rfl, rfl, rfl⟩

theorem gauged_plain {cs : List Char} (hne : cs ≠ [])
    (hcs : ∀ x ∈ cs, isPlain x = true ∧ x ≠ '\n') : Gauged n (.text cs)
      fun s ts s' k => ts = [] ∧ Marked (cs.map isSign) s ts s' k :=
  .text fun hs => by
    obtain ⟨x, xs, rfl⟩ := List.exists_cons_of_ne_nil hne
    obtain ⟨hcode, hp, hc⟩ := hs.plain (fun y hy => (hcs y hy).1) ⟨x, rfl, (hcs x (by simp)).2⟩
    exact ⟨_, _, hp, hc, rfl, hcode, rfl, rfl⟩

theorem gauged_ends {cs : List Char} (hne : cs ≠ [])
    (hcs : ∀ x ∈ cs, isPlain x = true ∧ x ≠ '\n' ∧ isSign x = false) :
    Gauged n (.text cs) Ends :=
  (gauged_plain hne fun x hx => ⟨(hcs x hx).1, (hcs x hx).2.1⟩).mono fun {s ts s' k} h _ _ => by
    obtain ⟨rfl, h⟩ := h
    exact h.ends (by simpa using hne) (by simpa using fun x hx => (hcs x hx).2.2) rfl

theorem gauged_word {w : String} (hw : w.toList ≠ [] ∧ (w.toList.all fun x =>
    decide (isPlain x = true ∧ x ≠ '\n' ∧ isSign x = false)) = true) : Gauged n (word w) Ends :=
  gauged_ends hw.1 (forall_mem_chars hw.2)

/-- Only a line feed or a semicolon separates statements, where blanks have been skipped. -/
theorem gauged_separator : Gauged n separator Ends := by
  intro i hi c d ts ho s hs hf
  obtain h | h := Takes.of_alt ⟨i, ho⟩
  · obtain ⟨hc, rfl⟩ : c.rest = '\n' :: d.rest ∧ ts = [] := by
      obtain h | h := h.of_alt
      · exact h.of_text
      · -- a carriage return would have been skipped
        obtain ⟨r, hr⟩ : ∃ r, c.rest = '\r' :: r := by
          obtain h | h := h.of_alt
          · exact ⟨_, h.of_text.1⟩
          · exact ⟨_, h.of_text.1⟩
        exact absurd (hf '\r' (by rw [hr]; rfl)) (by decide)
    rw [hc] at hs ⊢
    obtain ⟨hp, hd⟩ := hs.line
    exact ⟨_, _, hp, hd, ⟨rfl, rfl, rfl⟩, rfl⟩
  · obtain ⟨j, hj⟩ := h
    have hword : Gauged j (word ";") Ends := gauged_word (by decide)
    exact hword j le_rfl hj hs hf

end Words

section Tokens

variable {n : Nat}

/-- A token, with what its characters say about signs. -/
def Lexeme (r : Rule) (marks : List Char → List Bool) : Gauge := fun s ts s' k =>
  ∃ span chars, ts = [.leaf r span chars] ∧ grammar.Allows (body r) chars ∧
    Marked (marks chars) s ts s' k

theorem Gauged.token {r : Rule} {marks : List Char → List Bool} (hr : isToken r = true)
    (h : ∀ {c d ts s cs}, grammar.Takes .tight (body r) c d ts → Clean s c.rest →
      c.rest = cs ++ d.rest → grammar.Allows (body r) cs → ∃ s' k, Passes s c.rest k s' d.rest ∧
        Clean s' d.rest ∧ Marked (marks cs) s [] s' k) : Gauged n (.rule r) (Lexeme r marks) := by
  intro i hi c d ts ho s hs _
  cases i with
  | zero => cases ho
  | succ i =>
    rw [outcome_token _ _ _ hr] at ho
    obtain ⟨c₁, t₁, h₁, ho⟩ | ⟨-, ho⟩ := Matched.elim_eq_done ho
    · cases ho
      obtain ⟨cs, hcs, ha⟩ := allows_of_outcome h₁
      obtain ⟨s', k, hp, hc, hm⟩ := h ⟨i, h₁⟩ hs hcs ha
      have htext : c.upTo d = cs := Takes.upTo ⟨i, h₁⟩ hcs
      exact ⟨s', k, hp, hc, _, cs, by rw [htext], ha, hm⟩
    · cases ho

/-- What a token starts with that does not start like the end of a line. -/
theorem gauged_token {r : Rule} (hr : isToken r = true) (hplain : (body r).Within isPlain)
    (hhead : (body r).Leads (· != '\n')) : Gauged n (.rule r) (Lexeme r (List.map isSign)) :=
  .token hr fun {c d ts s cs} _ hs hcs ha => by
    obtain ⟨x, xs, rfl, hx⟩ := hhead.exists_cons ha
    rw [hcs] at hs ⊢
    obtain ⟨hcode, hp, hc⟩ := hs.plain (hplain.forall_mem ha) ⟨x, rfl, by simpa using hx⟩
    exact ⟨_, _, hp, hc, hcode, rfl, rfl⟩

/-- A token that does not start with a sign ends the run before it. -/
theorem gauged_unsigned {r : Rule} (hr : isToken r = true) (hplain : (body r).Within isPlain)
    (hhead : (body r).Leads (· != '\n')) (hsign : (body r).Leads (!isSign ·)) :
    Gauged n (.rule r) (Lexeme r fun chars => false :: chars.map isSign) :=
  (gauged_token hr hplain hhead).mono fun {s ts s' k} h _ _ => by
    obtain ⟨span, chars, rfl, ha, hcode, rfl, rfl⟩ := h
    obtain ⟨x, xs, rfl, hx⟩ := hsign.exists_cons ha
    have hx : isSign x = false := by simpa using hx
    refine ⟨span, _, rfl, ha, hcode, ?_, ?_⟩ <;> simp [signRun, signPeak, hx]

theorem gauged_string : Gauged n (.rule .string) (Lexeme .string fun _ => [false]) :=
  .token rfl fun {c d ts s cs} ht hs _ _ => by
    obtain ⟨hcode, hp, hc⟩ := hs.string ht
    refine ⟨_, _, hp, hc, hcode, rfl, ?_⟩
    simp [signPeak, depth]

theorem within_satisfy {f : Char → Bool} (h : special.all (fun x => decide (f x = false)) = true) :
    (satisfy f : Pattern Rule).Within isPlain := fun _ hx => plain_of (forall_mem_chars h) hx

theorem within_digits : digits.Within isPlain :=
  ⟨within_satisfy (by decide), within_satisfy (by decide)⟩

theorem within_name : name.Within isPlain :=
  ⟨within_satisfy (by decide), within_satisfy (by decide)⟩

theorem within_word {s : String} (h : s.toList.all (fun x => decide (isPlain x = true)) = true) :
    (word s : Pattern Rule).Within isPlain := forall_mem_chars h

theorem leads_satisfy {f : Char → Bool} (h : f '\n' = false) :
    (satisfy f : Pattern Rule).Leads (· != '\n') := fun x hx => by
  rw [bne_iff_ne]
  rintro rfl
  rw [h] at hx
  cases hx

theorem signless {f : Char → Bool} (h : f '-' = false ∧ f '!' = false) :
    (satisfy f : Pattern Rule).Within (!isSign ·) := fun x hx => by
  simp only [isSign, Bool.not_or, Bool.and_eq_true, Bool.not_eq_true', beq_eq_false_iff_ne]
  constructor <;> rintro rfl
  · rw [h.1] at hx
    cases hx
  · rw [h.2] at hx
    cases hx

theorem leads_word {s : String} (h : ∃ x ∈ s.toList.head?, (x != '\n') = true) :
    (word s : Pattern Rule).Leads (· != '\n') := h

theorem within_field : (body .field).Within isPlain :=
  ⟨within_name, .alts fun p hp => by
    obtain ⟨s, hs, rfl⟩ := List.mem_map.mp hp
    fin_cases hs <;> exact within_word (by decide)⟩

theorem leads_field : (body .field).Leads (· != '\n') :=
  ⟨leads_satisfy rfl, .alts (by simp) fun p hp => by
    obtain ⟨s, hs, rfl⟩ := List.mem_map.mp hp
    fin_cases hs <;> exact leads_word ⟨_, rfl, by decide⟩⟩

theorem gauged_field : Gauged n (.rule .field) (Lexeme .field (List.map isSign)) :=
  gauged_token rfl within_field leads_field

theorem unsigned_ident : (body .ident).Leads (!isSign ·) := signless (by decide)

theorem gauged_ident :
    Gauged n (.rule .ident) (Lexeme .ident fun chars => false :: chars.map isSign) :=
  gauged_unsigned rfl ⟨trivial, within_name⟩ (leads_satisfy rfl) unsigned_ident

/-- There are no signs in names. -/
theorem gauged_name : Gauged n (.rule .ident) Ends :=
  gauged_ident.mono fun {s ts s' k} h _ _ => by
    obtain ⟨span, chars, rfl, ha, hm⟩ := h
    have hsigns : (body .ident).Within (!isSign ·) :=
      ⟨trivial, signless (by decide), signless (by decide)⟩
    refine hm.ends (List.cons_ne_nil _ _) ?_ rfl
    simpa using hsigns.forall_mem ha

theorem gauged_integer :
    Gauged n (.rule .integer) (Lexeme .integer fun chars => false :: chars.map isSign) :=
  gauged_unsigned rfl within_digits (leads_satisfy rfl) (signless (by decide))

theorem within_exponent : exponent.Within isPlain :=
  ⟨⟨within_word (by decide), within_word (by decide)⟩,
    ⟨⟨within_word (by decide), within_word (by decide)⟩, by simp [Pattern.empty, Pattern.Within]⟩,
    within_digits⟩

theorem gauged_float :
    Gauged n (.rule .float) (Lexeme .float fun chars => false :: chars.map isSign) :=
  gauged_unsigned rfl ⟨within_digits, ⟨within_word (by decide), within_digits, within_exponent,
    by simp [Pattern.empty, Pattern.Within]⟩, within_exponent⟩ (leads_satisfy rfl)
    (signless (by decide))

end Tokens

end Gauge

end Dataflow
