import Dataflow.Proofs.Grammar.Takes

/-!
# What a match consists of

The laws of matching read backwards: a match of a pattern consists of matches of its parts.

* `Grammar.Takes.exists_seq`, `Grammar.Takes.star_induct`: the parts of a match;
* `Grammar.Allows`: the texts that a pattern can take, if nothing is said about what is absent;
* `Pattern.Within`, `Pattern.Leads`: the characters of these texts.
-/

namespace Dataflow

namespace Grammar

open Matched (elim)

variable {R : Type} {g : Grammar R} {m : Mode} {a b p : Pattern R} {c d : Cursor}
  {ts : List (Tree R)}

/-- A pattern cannot both match and fail. -/
theorem Takes.not_fails (h : g.Takes m p c d ts) : ¬g.Fails m p c := by
  intro hf
  obtain ⟨i, hi⟩ := h.eventually
  obtain ⟨j, hj⟩ := hf.eventually
  have := (hi (max i j) (Nat.le_max_left _ _)).symm.trans (hj (max i j) (Nat.le_max_right _ _))
  cases this

/-! ## Parts -/

theorem skips_of_skipped {n : Nat} (h : g.skipped n m c = .done d ts) : g.Skips m c d := by
  cases m with
  | tight =>
    cases h
    rfl
  | spaced => exact ⟨ts, n, h⟩

theorem Takes.exists_seq (h : g.Takes m (.seq a b) c d ts) : ∃ c₁ c₂ t₁ t₂,
    g.Takes m a c c₁ t₁ ∧ g.Skips m c₁ c₂ ∧ g.Takes m b c₂ d t₂ ∧ ts = t₁ ++ t₂ := by
  obtain ⟨n, hn⟩ := h
  cases n with
  | zero => cases hn
  | succ n =>
    rw [outcome_seq] at hn
    obtain ⟨c₁, t₁, ha, hn⟩ | ⟨-, hn⟩ := Matched.elim_eq_done hn
    · obtain ⟨c₂, t₂, hs, hn⟩ | ⟨-, hn⟩ := Matched.elim_eq_done hn
      · obtain ⟨c₃, t₃, hb, hn⟩ | ⟨-, hn⟩ := Matched.elim_eq_done hn
        · cases hn
          exact ⟨c₁, c₂, t₁, t₃, ⟨n, ha⟩, skips_of_skipped hs, ⟨n, hb⟩, rfl⟩
        · cases hn
      · cases hn
    · cases hn

theorem Takes.of_alt (h : g.Takes m (.alt a b) c d ts) :
    g.Takes m a c d ts ∨ g.Takes m b c d ts := by
  obtain ⟨n, hn⟩ := h
  cases n with
  | zero => cases hn
  | succ n =>
    rw [outcome_alt] at hn
    obtain ⟨c₁, t₁, ha, hn⟩ | ⟨-, hn⟩ := Matched.elim_eq_done hn
    · cases hn
      exact .inl ⟨n, ha⟩
    · exact .inr ⟨n, hn⟩

theorem Takes.of_text {cs : List Char} (h : g.Takes m (.text cs) c d ts) :
    c.rest = cs ++ d.rest ∧ ts = [] := by
  obtain ⟨n, hn⟩ := h
  cases n with
  | zero => cases hn
  | succ n =>
    rw [outcome_text] at hn
    cases hd : c.after? cs with
    | none =>
      rw [hd] at hn
      cases hn
    | some e =>
      rw [hd] at hn
      cases hn
      exact ⟨(Cursor.after?_eq_some hd).1, rfl⟩

theorem Takes.of_satisfy {f : Char → Bool} (h : g.Takes m (.satisfy f) c d ts) :
    ∃ x, c.rest = x :: d.rest ∧ f x = true ∧ ts = [] := by
  obtain ⟨n, hn⟩ := h
  cases n with
  | zero => cases hn
  | succ n =>
    obtain ⟨o, _ | ⟨x, xs⟩⟩ := c
    · cases hn
    · rw [outcome_satisfy_cons] at hn
      split at hn
      · cases hn
        exact ⟨x, rfl, ‹_›, rfl⟩
      · cases hn

theorem Takes.of_absent (h : g.Takes m (.absent a) c d ts) : d = c ∧ ts = [] ∧ g.Fails m a c := by
  obtain ⟨n, hn⟩ := h
  cases n with
  | zero => cases hn
  | succ n =>
    rw [outcome_absent] at hn
    obtain ⟨c₁, t₁, -, hn⟩ | ⟨ha, hn⟩ := Matched.elim_eq_done hn
    · cases hn
    · cases hn
      exact ⟨rfl, rfl, n, ha⟩

theorem Takes.of_finish (h : g.Takes m .finish c d ts) : d = c ∧ c.rest = [] ∧ ts = [] := by
  obtain ⟨n, hn⟩ := h
  cases n with
  | zero => cases hn
  | succ n =>
    rw [outcome_finish] at hn
    split at hn
    · cases hn
      exact ⟨rfl, List.isEmpty_iff.mp ‹_›, rfl⟩
    · cases hn

theorem Takes.of_node {r : R} (hr : g.isToken r = false)
    (h : g.Takes .spaced (.rule r) c d ts) :
    ∃ us, g.Takes .spaced (g.body r) c d us ∧ ts = [.node r ⟨c.offset, d.offset⟩ us] := by
  obtain ⟨n, hn⟩ := h
  cases n with
  | zero => cases hn
  | succ n =>
    rw [outcome_node _ _ _ hr] at hn
    obtain ⟨e, us, hb, hn⟩ | ⟨-, hn⟩ := Matched.elim_eq_done hn
    · cases hn
      exact ⟨us, ⟨n, hb⟩, rfl⟩
    · cases hn

theorem Fails.of_alt (h : g.Fails m (.alt a b) c) : g.Fails m a c ∧ g.Fails m b c := by
  obtain ⟨n, hn⟩ := h
  cases n with
  | zero => cases hn
  | succ n =>
    rw [outcome_alt] at hn
    cases ha : g.outcome n m a c with
    | done d ts =>
      rw [ha] at hn
      cases hn
    | failed =>
      rw [ha] at hn
      exact ⟨⟨n, ha⟩, n, hn⟩
    | exhausted =>
      rw [ha] at hn
      cases hn

theorem Fails.of_text {cs : List Char} (h : g.Fails m (.text cs) c) (r : List Char) :
    c.rest ≠ cs ++ r := by
  intro hc
  obtain ⟨o, rest⟩ := c
  obtain rfl : rest = cs ++ r := hc
  exact (takes_text (Cursor.after?_append o cs r)).not_fails h

theorem Fails.of_satisfy {f : Char → Bool} (h : g.Fails m (.satisfy f) c) :
    ∀ x ∈ c.rest.head?, f x = false := by
  intro x hx
  obtain ⟨o, _ | ⟨y, ys⟩⟩ := c
  · cases hx
  · cases hx
    by_contra hf
    exact (takes_satisfy (Bool.not_eq_false _ ▸ hf)).not_fails h

theorem Fails.of_absent (h : g.Fails m (.absent a) c) : ∃ d ts, g.Takes m a c d ts := by
  obtain ⟨n, hn⟩ := h
  cases n with
  | zero => cases hn
  | succ n =>
    rw [outcome_absent] at hn
    cases ha : g.outcome n m a c with
    | done d ts => exact ⟨d, ts, n, ha⟩
    | failed =>
      rw [ha] at hn
      cases hn
    | exhausted =>
      rw [ha] at hn
      cases hn

/-- Where a sequence in a token fails, its first part fails or its second part fails behind it. -/
theorem Fails.of_seq_tight (h : g.Fails .tight (.seq a b) c) :
    g.Fails .tight a c ∨ ∃ d ts, g.Takes .tight a c d ts ∧ g.Fails .tight b d := by
  obtain ⟨n, hn⟩ := h
  cases n with
  | zero => cases hn
  | succ n =>
    rw [outcome_seq] at hn
    cases ha : g.outcome n .tight a c with
    | failed => exact .inl ⟨n, ha⟩
    | exhausted =>
      rw [ha] at hn
      cases hn
    | done d ts =>
      refine .inr ⟨d, ts, ⟨n, ha⟩, n, ?_⟩
      rw [ha] at hn
      simp only [elim, skipped] at hn
      cases hb : g.outcome n .tight b d with
      | failed => rfl
      | done e us =>
        rw [hb] at hn
        cases hn
      | exhausted =>
        rw [hb] at hn
        cases hn

/-- A repetition in a token keeps what one match keeps, and ends where there is no further match. -/
theorem Takes.star_induct {I : Cursor → Prop} (h : g.Takes .tight (.star a) c d ts) (hc : I c)
    (step : ∀ c d ts, I c → g.Takes .tight a c d ts → I d) : I d ∧ g.Fails .tight a d := by
  have hmore (n : Nat) : ∀ {c d ts}, I c → g.outcome n .tight (.more a) c = .done d ts →
      I d ∧ g.Fails .tight a d := by
    induction n with
    | zero =>
      intro c d ts _ h
      cases h
    | succ n ih =>
      intro c d ts hc h
      rw [outcome_more] at h
      obtain ⟨c₁, t₁, hs, h⟩ | ⟨-, h⟩ := Matched.elim_eq_done h
      · cases hs
        obtain ⟨c₂, t₂, ha, h⟩ | ⟨ha, h⟩ := Matched.elim_eq_done h
        · obtain ⟨c₃, t₃, hm, h⟩ | ⟨-, h⟩ := Matched.elim_eq_done h
          · cases h
            exact ih (step _ _ _ hc ⟨n, ha⟩) hm
          · cases h
        · cases h
          exact ⟨hc, n, ha⟩
      · cases h
  obtain ⟨n, hn⟩ := h
  cases n with
  | zero => cases hn
  | succ n =>
    rw [outcome_star] at hn
    obtain ⟨c₁, t₁, ha, hn⟩ | ⟨ha, hn⟩ := Matched.elim_eq_done hn
    · obtain ⟨c₂, t₂, hm, hn⟩ | ⟨-, hn⟩ := Matched.elim_eq_done hn
      · cases hn
        exact hmore n (step _ _ _ hc ⟨n, ha⟩) hm
      · cases hn
    · cases hn
      exact ⟨hc, n, ha⟩

/-! ## Texts -/

variable (g)

/-- The texts that a pattern can take in a token, if nothing is said about what is absent. -/
inductive Allows : Pattern R → List Char → Prop where
  | text (cs : List Char) : Allows (.text cs) cs
  | satisfy {f : Char → Bool} {x : Char} (h : f x = true) : Allows (.satisfy f) [x]
  | finish : Allows .finish []
  | rule {r : R} {cs : List Char} (h : Allows (g.body r) cs) : Allows (.rule r) cs
  | seq {a b : Pattern R} {cs ds : List Char} (ha : Allows a cs) (hb : Allows b ds) :
    Allows (.seq a b) (cs ++ ds)
  | left {a b : Pattern R} {cs : List Char} (h : Allows a cs) : Allows (.alt a b) cs
  | right {a b : Pattern R} {cs : List Char} (h : Allows b cs) : Allows (.alt a b) cs
  | star_nil {a : Pattern R} : Allows (.star a) []
  | star {a : Pattern R} {cs ds : List Char} (ha : Allows a cs) (hm : Allows (.more a) ds) :
    Allows (.star a) (cs ++ ds)
  | more_nil {a : Pattern R} : Allows (.more a) []
  | more {a : Pattern R} {cs ds : List Char} (ha : Allows a cs) (hm : Allows (.more a) ds) :
    Allows (.more a) (cs ++ ds)
  | absent {a : Pattern R} : Allows (.absent a) []

variable {g}

theorem allows_of_outcome {n : Nat} (h : g.outcome n .tight p c = .done d ts) :
    ∃ cs, c.rest = cs ++ d.rest ∧ g.Allows p cs := by
  induction n generalizing p c d ts with
  | zero => cases h
  | succ n ih =>
    cases p with
    | text cs => exact ⟨cs, (Takes.of_text ⟨n + 1, h⟩).1, .text cs⟩
    | satisfy f =>
      obtain ⟨x, hx, hf, -⟩ := Takes.of_satisfy ⟨n + 1, h⟩
      exact ⟨[x], hx, .satisfy hf⟩
    | finish =>
      rw [outcome_finish] at h
      split at h
      · cases h
        exact ⟨[], rfl, .finish⟩
      · cases h
    | rule r =>
      obtain ⟨cs, hc, hcs⟩ := ih (show g.outcome n .tight (g.body r) c = .done d ts from h)
      exact ⟨cs, hc, .rule hcs⟩
    | seq a b =>
      rw [outcome_seq] at h
      obtain ⟨c₁, t₁, ha, h⟩ | ⟨-, h⟩ := Matched.elim_eq_done h
      · obtain ⟨c₂, t₂, hs, h⟩ | ⟨-, h⟩ := Matched.elim_eq_done h
        · cases hs
          obtain ⟨c₃, t₃, hb, h⟩ | ⟨-, h⟩ := Matched.elim_eq_done h
          · cases h
            obtain ⟨cs, hc, hcs⟩ := ih ha
            obtain ⟨ds, hd, hds⟩ := ih hb
            exact ⟨cs ++ ds, by rw [hc, hd, List.append_assoc], .seq hcs hds⟩
          · cases h
        · cases h
      · cases h
    | alt a b =>
      rw [outcome_alt] at h
      obtain ⟨c₁, t₁, ha, h⟩ | ⟨-, h⟩ := Matched.elim_eq_done h
      · cases h
        obtain ⟨cs, hc, hcs⟩ := ih ha
        exact ⟨cs, hc, .left hcs⟩
      · obtain ⟨cs, hc, hcs⟩ := ih h
        exact ⟨cs, hc, .right hcs⟩
    | star a =>
      rw [outcome_star] at h
      obtain ⟨c₁, t₁, ha, h⟩ | ⟨-, h⟩ := Matched.elim_eq_done h
      · obtain ⟨c₂, t₂, hm, h⟩ | ⟨-, h⟩ := Matched.elim_eq_done h
        · cases h
          obtain ⟨cs, hc, hcs⟩ := ih ha
          obtain ⟨ds, hd, hds⟩ := ih hm
          exact ⟨cs ++ ds, by rw [hc, hd, List.append_assoc], .star hcs hds⟩
        · cases h
      · cases h
        exact ⟨[], rfl, .star_nil⟩
    | more a =>
      rw [outcome_more] at h
      obtain ⟨c₁, t₁, hs, h⟩ | ⟨-, h⟩ := Matched.elim_eq_done h
      · cases hs
        obtain ⟨c₂, t₂, ha, h⟩ | ⟨-, h⟩ := Matched.elim_eq_done h
        · obtain ⟨c₃, t₃, hm, h⟩ | ⟨-, h⟩ := Matched.elim_eq_done h
          · cases h
            obtain ⟨cs, hc, hcs⟩ := ih ha
            obtain ⟨ds, hd, hds⟩ := ih hm
            exact ⟨cs ++ ds, by rw [hc, hd, List.append_assoc], .more hcs hds⟩
          · cases h
        · cases h
          exact ⟨[], rfl, .more_nil⟩
      · cases h
    | absent a =>
      obtain ⟨rfl, -, -⟩ := Takes.of_absent ⟨n + 1, h⟩
      exact ⟨[], rfl, .absent⟩

end Grammar

namespace Pattern

variable {R : Type} (f : Char → Bool)

/-- Whether a pattern without rules takes characters of a class only. -/
def Within : Pattern R → Prop
  | text cs => ∀ x ∈ cs, f x = true
  | satisfy h => ∀ x, h x = true → f x = true
  | seq a b | alt a b => Within a ∧ Within b
  | star a | more a => Within a
  | finish | absent _ => True
  | rule _ => False

/-- Whether what a pattern takes starts with a character of a class. -/
def Leads : Pattern R → Prop
  | text cs => ∃ x ∈ cs.head?, f x = true
  | satisfy h => ∀ x, h x = true → f x = true
  | seq (absent _) b => Leads b
  | seq a _ => Leads a
  | alt a b => Leads a ∧ Leads b
  | star _ | more _ | finish | absent _ | rule _ => False

variable {f} {g : Grammar R} {p : Pattern R} {cs : List Char}

theorem Within.alts {ps : List (Pattern R)} (h : ∀ p ∈ ps, p.Within f) : (alts ps).Within f := by
  induction ps with
  | nil => simp [Pattern.alts, empty, Within]
  | cons a as ih =>
    cases as with
    | nil => exact h a (List.mem_cons_self ..)
    | cons b bs => exact ⟨h a (List.mem_cons_self ..), ih fun p hp => h p (List.mem_cons_of_mem _ hp)⟩

theorem Leads.alts {ps : List (Pattern R)} (hps : ps ≠ []) (h : ∀ p ∈ ps, p.Leads f) :
    (alts ps).Leads f := by
  induction ps with
  | nil => exact absurd rfl hps
  | cons a as ih =>
    cases as with
    | nil => exact h a (List.mem_cons_self ..)
    | cons b bs =>
      exact ⟨h a (List.mem_cons_self ..), ih (by simp) fun p hp => h p (List.mem_cons_of_mem _ hp)⟩

theorem Within.forall_mem (hp : p.Within f) (h : g.Allows p cs) : ∀ x ∈ cs, f x = true := by
  induction h with
  | text cs => exact hp
  | satisfy h =>
    intro x hx
    rw [List.mem_singleton.mp hx]
    exact hp _ h
  | finish | star_nil | more_nil | absent => simp
  | rule => exact hp.elim
  | seq _ _ iha ihb => exact fun x hx => (List.mem_append.mp hx).elim (iha hp.1 x) (ihb hp.2 x)
  | left _ ih => exact ih hp.1
  | right _ ih => exact ih hp.2
  | star _ _ iha ihm => exact fun x hx => (List.mem_append.mp hx).elim (iha hp x) (ihm hp x)
  | more _ _ iha ihm => exact fun x hx => (List.mem_append.mp hx).elim (iha hp x) (ihm hp x)

theorem Leads.exists_cons (hp : p.Leads f) (h : g.Allows p cs) :
    ∃ x xs, cs = x :: xs ∧ f x = true := by
  induction h with
  | text cs =>
    obtain ⟨x, hx, hf⟩ := hp
    cases cs with
    | nil => cases hx
    | cons y ys =>
      cases hx
      exact ⟨_, _, rfl, hf⟩
  | satisfy h => exact ⟨_, _, rfl, hp _ h⟩
  | finish | star_nil | more_nil | absent | rule | star | more => exact hp.elim
  | @seq a b cs ds ha hb iha ihb =>
    by_cases hq : ∃ q, a = .absent q
    · obtain ⟨q, rfl⟩ := hq
      cases ha
      exact ihb hp
    · rw [Leads] at hp
      · obtain ⟨x, xs, rfl, hf⟩ := iha hp
        exact ⟨x, xs ++ ds, rfl, hf⟩
      · exact fun q h => hq ⟨q, h⟩
  | left _ ih => exact ih hp.1
  | right _ ih => exact ih hp.2

end Pattern

end Dataflow
