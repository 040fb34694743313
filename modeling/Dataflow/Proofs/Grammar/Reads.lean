import Dataflow.Proofs.Grammar.Takes

/-!
# From token to token

Between two tokens there are blanks, and where they are skipped depends on the pattern. The laws of
matching are simpler from the start of one token to the start of another, without the offsets.

* `Grammar.Reads`: a pattern matches from one text to another;
* `Grammar.Refuses`: a pattern does not match at a text;
* `Grammar.shuns`: patterns that do not match by the first character alone.
-/

namespace Dataflow

namespace Grammar

variable {R : Type} (g : Grammar R)

/-- There are no blanks at the start of a text. -/
def Rests (cs : List Char) : Prop := ∀ o, g.Skips .spaced ⟨o, cs⟩ ⟨o, cs⟩

/-- A pattern matches from one text to another, with blanks skipped behind it, and the trees that it
builds have a property. -/
def Reads (p : Pattern R) (cs ds : List Char) (P : List (Tree R) → Prop) : Prop :=
  g.Rests ds ∧ ∀ o, ∃ e o' ts, g.Takes .spaced p ⟨o, cs⟩ e ts ∧ g.Skips .spaced e ⟨o', ds⟩ ∧ P ts

/-- A pattern does not match at a text. -/
def Refuses (p : Pattern R) (cs : List Char) : Prop := ∀ o, g.Fails .spaced p ⟨o, cs⟩

variable {g} {a b p : Pattern R} {cs ds es : List Char} {P Q T : List (Tree R) → Prop}

theorem Takes.unique {m : Mode} {c d d' : Cursor} {ts ts' : List (Tree R)}
    (h : g.Takes m p c d ts) (h' : g.Takes m p c d' ts') : d = d' := by
  obtain ⟨i, hi⟩ := h.eventually
  obtain ⟨j, hj⟩ := h'.eventually
  have := (hi (max i j) (Nat.le_max_left _ _)).symm.trans (hj (max i j) (Nat.le_max_right _ _))
  cases this
  rfl

/-! ## Laws -/

theorem Reads.mono (h : g.Reads p cs ds P) (hPQ : ∀ ts, P ts → Q ts) : g.Reads p cs ds Q := by
  refine ⟨h.1, fun o => ?_⟩
  obtain ⟨e, o', ts, ht, hs, hP⟩ := h.2 o
  exact ⟨e, o', ts, ht, hs, hPQ ts hP⟩

theorem Reads.seq (ha : g.Reads a cs ds P) (hb : g.Reads b ds es Q)
    (h : ∀ s t, P s → Q t → T (s ++ t)) : g.Reads (.seq a b) cs es T := by
  refine ⟨hb.1, fun o => ?_⟩
  obtain ⟨e₁, o₁, t₁, h₁, s₁, p₁⟩ := ha.2 o
  obtain ⟨e₂, o₂, t₂, h₂, s₂, p₂⟩ := hb.2 o₁
  exact ⟨e₂, o₂, t₁ ++ t₂, h₁.seq s₁ h₂, s₂, h _ _ p₁ p₂⟩

theorem Refuses.seq (ha : g.Refuses a cs) : g.Refuses (.seq a b) cs := fun o => (ha o).seq_left

theorem Reads.seq_refuses (ha : g.Reads a cs ds P) (hb : g.Refuses b ds) :
    g.Refuses (.seq a b) cs := by
  intro o
  obtain ⟨e, o', ts, h, s, -⟩ := ha.2 o
  exact h.seq_fails s (hb o')

theorem Reads.alt (ha : g.Reads a cs ds P) : g.Reads (.alt a b) cs ds P := by
  refine ⟨ha.1, fun o => ?_⟩
  obtain ⟨e, o', ts, h, s, hP⟩ := ha.2 o
  exact ⟨e, o', ts, h.alt_left, s, hP⟩

theorem Refuses.alt_reads (ha : g.Refuses a cs) (hb : g.Reads b cs ds P) :
    g.Reads (.alt a b) cs ds P := by
  refine ⟨hb.1, fun o => ?_⟩
  obtain ⟨e, o', ts, h, s, hP⟩ := hb.2 o
  exact ⟨e, o', ts, (ha o).alt_takes h, s, hP⟩

theorem Refuses.alt (ha : g.Refuses a cs) (hb : g.Refuses b cs) : g.Refuses (.alt a b) cs :=
  fun o => Fails.alt (ha o) (hb o)

theorem Refuses.star (ha : g.Refuses a cs) (hs : g.Rests cs) :
    g.Reads (.star a) cs cs (· = []) :=
  ⟨hs, fun o => ⟨⟨o, cs⟩, o, [], (ha o).star, hs o, rfl⟩⟩

/-- A repetition that goes on from `c`, goes on from the blanks before `c` as well. -/
theorem Takes.more_of_star {m : Mode} {c c' d e : Cursor} {ts : List (Tree R)} (hs : g.Skips m c c')
    (hs' : g.Skips m c' c') (h : g.Takes m (.star a) c' d ts) (hd : g.Skips m d e) :
    ∃ d', g.Takes m (.more a) c d' ts ∧ g.Skips m d' e := by
  obtain ⟨n, hn⟩ := h
  cases n with
  | zero => cases hn
  | succ n =>
    rw [outcome_star] at hn
    obtain ⟨c₁, t₁, ha, hn⟩ | ⟨ha, hn⟩ := Matched.elim_eq_done hn
    · obtain ⟨c₂, t₂, hm, hn⟩ | ⟨-, hn⟩ := Matched.elim_eq_done hn
      · cases hn
        exact ⟨_, Takes.more hs ⟨n, ha⟩ ⟨n, hm⟩, hd⟩
      · cases hn
    · cases hn
      refine ⟨c, Fails.more hs ⟨n, ha⟩, ?_⟩
      -- nothing is skipped twice
      cases m with
      | tight => exact hd.trans hs
      | spaced =>
        obtain ⟨t, h⟩ := hs'
        obtain ⟨t', h'⟩ := hd
        cases h.unique h'
        exact hs

theorem Reads.star (ha : g.Reads a cs ds P) (hb : g.Reads (.star a) ds es Q)
    (h : ∀ s t, P s → Q t → T (s ++ t)) : g.Reads (.star a) cs es T := by
  refine ⟨hb.1, fun o => ?_⟩
  obtain ⟨e₁, o₁, t₁, h₁, s₁, p₁⟩ := ha.2 o
  obtain ⟨e₂, o₂, t₂, h₂, s₂, p₂⟩ := hb.2 o₁
  obtain ⟨e, hm, hs⟩ := h₂.more_of_star s₁ (ha.1 o₁) s₂
  exact ⟨e, o₂, t₁ ++ t₂, h₁.star hm, hs, h _ _ p₁ p₂⟩

theorem Refuses.absent (ha : g.Refuses a cs) (hs : g.Rests cs) :
    g.Reads (.absent a) cs cs (· = []) :=
  ⟨hs, fun o => ⟨⟨o, cs⟩, o, [], (ha o).absent, hs o, rfl⟩⟩

theorem Reads.absent (ha : g.Reads a cs ds P) : g.Refuses (.absent a) cs := by
  intro o
  obtain ⟨e, o', ts, h, -, -⟩ := ha.2 o
  exact h.absent

theorem Reads.empty (hs : g.Rests cs) : g.Reads .empty cs cs (· = []) :=
  ⟨hs, fun o => ⟨⟨o, cs⟩, o, [], takes_text rfl, hs o, rfl⟩⟩

theorem Reads.node {r : R} (hr : g.isToken r = false) (h : g.Reads (g.body r) cs ds P)
    (hPQ : ∀ span ts, P ts → Q [.node r span ts]) : g.Reads (.rule r) cs ds Q := by
  refine ⟨h.1, fun o => ?_⟩
  obtain ⟨e, o', ts, ht, hs, hP⟩ := h.2 o
  exact ⟨e, o', _, ht.node hr, hs, hPQ _ ts hP⟩

theorem Refuses.node {r : R} (hr : g.isToken r = false) (h : g.Refuses (g.body r) cs) :
    g.Refuses (.rule r) cs := fun o => (h o).node hr

/-- A token is read with its text. -/
theorem Reads.token {r : R} {t : List Char} (hr : g.isToken r = true)
    (h : ∀ o, ∃ o' ts, g.Takes .tight (g.body r) ⟨o, t ++ cs⟩ ⟨o', cs⟩ ts)
    (hs : ∀ o, ∃ o', g.Skips .spaced ⟨o, cs⟩ ⟨o', ds⟩) (hd : g.Rests ds) :
    g.Reads (.rule r) (t ++ cs) ds fun ts => ∃ span, ts = [.leaf r span t] := by
  refine ⟨hd, fun o => ?_⟩
  obtain ⟨o₁, ts, h⟩ := h o
  obtain ⟨o₂, hs⟩ := hs o₁
  refine ⟨_, o₂, _, h.token hr, hs, ⟨o, o₁⟩, ?_⟩
  rw [h.upTo rfl]

/-! ## First characters -/

/-- Whether a pattern does not match where the next character is `x`, or at the end of the text,
with rules looked into as deep as the first argument says. -/
def shuns (g : Grammar R) : Nat → Option Char → Pattern R → Bool
  | 0, _, _ => false
  | n + 1, x, p =>
    match p with
    | .text [] => false
    | .text (c :: _) => x != some c
    | .satisfy f => !x.any f
    | .finish => x.isSome
    | .rule r => g.shuns n x (g.body r)
    | .seq a _ => g.shuns n x a
    | .alt a b => g.shuns n x a && g.shuns n x b
    | .star _ | .more _ | .absent _ => false

/-- The first character is enough to say that a pattern does not match. -/
theorem fails_of_shuns {n : Nat} {m : Mode} {c : Cursor}
    (h : g.shuns n c.rest.head? p = true) : g.Fails m p c := by
  induction n generalizing m p with
  | zero => cases h
  | succ n ih =>
    obtain ⟨o, rest⟩ := c
    cases p with
    | text cs =>
      cases cs with
      | nil => cases h
      | cons x xs =>
        refine fails_text ?_
        cases rest with
        | nil => rfl
        | cons y ys =>
          have hne : x ≠ y := by
            rintro rfl
            simp [shuns] at h
          exact if_neg hne
    | satisfy f =>
      refine fails_satisfy fun x hx => ?_
      rw [Option.mem_def] at hx
      simpa [shuns, hx] using h
    | finish =>
      cases rest with
      | nil => cases h
      | cons y ys => exact ⟨1, rfl⟩
    | rule r =>
      have hbody (m : Mode) : g.Fails m (g.body r) ⟨o, rest⟩ := ih h
      cases m with
      | tight =>
        obtain ⟨k, hk⟩ := hbody .tight
        exact ⟨k + 1, hk⟩
      | spaced =>
        cases hr : g.isToken r with
        | true => exact (hbody .tight).token hr
        | false => exact (hbody .spaced).node hr
    | seq a b => exact Fails.seq_left (ih h)
    | alt a b =>
      rw [shuns, Bool.and_eq_true] at h
      exact Fails.alt (ih h.1) (ih h.2)
    | star a => cases h
    | more a => cases h
    | absent a => cases h

theorem refuses_of_shuns (n : Nat) (h : g.shuns n cs.head? p = true) : g.Refuses p cs :=
  fun _ => fails_of_shuns h

/-! ## Runs of characters -/

theorem skips_tight (c : Cursor) : g.Skips .tight c c := rfl

/-- A repetition takes all of the pieces that it is made of. -/
theorem takes_star_flatMap {f : Char → List Char} {o : Nat}
    (hc : ∀ x ∈ cs, ∀ o r, ∃ o', g.Takes .tight a ⟨o, f x ++ r⟩ ⟨o', r⟩ [])
    (hd : ∀ o, g.Fails .tight a ⟨o, ds⟩) :
    ∃ o', g.Takes .tight (.star a) ⟨o, cs.flatMap f ++ ds⟩ ⟨o', ds⟩ [] := by
  have hmore (xs : List Char) : ∀ o,
      (∀ x ∈ xs, ∀ o r, ∃ o', g.Takes .tight a ⟨o, f x ++ r⟩ ⟨o', r⟩ []) →
      ∃ o', g.Takes .tight (.more a) ⟨o, xs.flatMap f ++ ds⟩ ⟨o', ds⟩ [] := by
    induction xs with
    | nil => exact fun o _ => ⟨o, Fails.more (skips_tight _) (hd o)⟩
    | cons x xs ih =>
      intro o hc
      rw [List.flatMap_cons, List.append_assoc]
      obtain ⟨o₁, h₁⟩ := hc x (List.mem_cons_self ..) o (xs.flatMap f ++ ds)
      obtain ⟨o₂, h₂⟩ := ih o₁ fun y hy => hc y (List.mem_cons_of_mem _ hy)
      exact ⟨o₂, Takes.more (skips_tight _) h₁ h₂⟩
  cases cs with
  | nil => exact ⟨o, Fails.star (hd o)⟩
  | cons x xs =>
    rw [List.flatMap_cons, List.append_assoc]
    obtain ⟨o₁, h₁⟩ := hc x (List.mem_cons_self ..) o (xs.flatMap f ++ ds)
    obtain ⟨o₂, h₂⟩ := hmore xs o₁ fun y hy => hc y (List.mem_cons_of_mem _ hy)
    exact ⟨o₂, Takes.star h₁ h₂⟩

/-- A repetition of characters of a class takes all of them. -/
theorem takes_star_satisfy {f : Char → Bool} {o : Nat} (hc : ∀ x ∈ cs, f x = true)
    (hd : ∀ x ∈ ds.head?, f x = false) :
    ∃ o', g.Takes .tight (.star (.satisfy f)) ⟨o, cs ++ ds⟩ ⟨o', ds⟩ [] := by
  have h : ∃ o', g.Takes .tight (.star (.satisfy f)) ⟨o, cs.flatMap (fun x => [x]) ++ ds⟩ ⟨o', ds⟩ [] :=
    takes_star_flatMap (fun x hx o r => ⟨_, takes_satisfy (hc x hx)⟩) fun o => fails_satisfy hd
  rwa [List.flatMap_singleton'] at h

end Grammar

end Dataflow
