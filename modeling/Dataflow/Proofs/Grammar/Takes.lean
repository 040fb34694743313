import Mathlib
import Dataflow.Proofs.Grammar.Depth

/-!
# What patterns take

What a failed match will report does not change how matching goes on, and neither does the depth
once it is enough. Without both, matching has simple laws, one or two for each kind of pattern.

* `Grammar.Takes`, `Grammar.Fails`: a pattern matches up to a cursor, or does not match;
* `Grammar.Skips`: blanks between the parts of a sequence;
* `Grammar.Takes.upTo`: the characters that a pattern has taken;
* **`Grammar.run_of_takes`**: the matcher does what the laws say, if it does not run out of depth.
-/

namespace Dataflow

/-- The size of characters in bytes. -/
def sizeOfChars (cs : List Char) : Nat := (cs.map Char.utf8Size).sum

theorem Cursor.after?_eq_some {cs : List Char} {c d : Cursor} (h : c.after? cs = some d) :
    c.rest = cs ++ d.rest ∧ d.offset = c.offset + sizeOfChars cs := by
  induction cs generalizing c with
  | nil =>
    cases h
    exact ⟨rfl, rfl⟩
  | cons x xs ih =>
    obtain ⟨offset, rest⟩ := c
    cases rest with
    | nil => cases h
    | cons y ys =>
      rw [after?] at h
      dsimp only at h
      split at h
      · rename_i hxy
        obtain ⟨hr, ho⟩ := ih h
        refine ⟨?_, ?_⟩
        · rw [hxy]
          exact congrArg _ hr
        · rw [ho, hxy, sizeOfChars, sizeOfChars, List.map_cons, List.sum_cons,
            Nat.add_assoc]
      · cases h

theorem Cursor.after?_append (o : Nat) (cs r : List Char) :
    Cursor.after? cs ⟨o, cs ++ r⟩ = some ⟨o + sizeOfChars cs, r⟩ := by
  induction cs generalizing o with
  | nil => rfl
  | cons x xs ih =>
    rw [List.cons_append, after?]
    dsimp only
    rw [if_pos rfl, ih, sizeOfChars, sizeOfChars, List.map_cons, List.sum_cons,
      Nat.add_assoc]

theorem Cursor.charsUpTo_append (o : Nat) (cs r : List Char) :
    charsUpTo (o + sizeOfChars cs) o (cs ++ r) = cs := by
  induction cs generalizing o with
  | nil =>
    cases r with
    | nil => rfl
    | cons x xs => exact if_neg (Nat.lt_irrefl o)
  | cons x xs ih =>
    have hx := x.utf8Size_pos
    have hsize : o + sizeOfChars (x :: xs) = o + x.utf8Size + sizeOfChars xs := by
      rw [sizeOfChars, List.map_cons, List.sum_cons, Nat.add_assoc]
      rfl
    rw [List.cons_append, charsUpTo, if_pos (by omega), hsize, ih]

namespace Matched

variable {R : Type}

/-- Goes on after a match or after a failure. -/
def elim (x : Matched R) (f : Cursor → List (Tree R) → Matched R) (k : Matched R) :
    Matched R :=
  match x with
  | .done c ts => f c ts
  | .failed => k
  | .exhausted => .exhausted

theorem fst_on {x : Matched R × Attempts R}
    {f : Cursor → List (Tree R) → Attempts R → Matched R × Attempts R}
    {k : Attempts R → Matched R × Attempts R} {x' k' : Matched R}
    {f' : Cursor → List (Tree R) → Matched R} (hx : x.1 = x')
    (hf : ∀ c ts w, (f c ts w).1 = f' c ts) (hk : ∀ w, (k w).1 = k') :
    (on x f k).1 = elim x' f' k' := by
  subst hx
  obtain ⟨_ | _ | _, w⟩ := x
  · exact hf _ _ _
  · exact hk _
  · rfl

theorem elim_eq_done {x k : Matched R} {f : Cursor → List (Tree R) → Matched R} {d : Cursor}
    {ts : List (Tree R)} (h : elim x f k = .done d ts) :
    (∃ c t, x = .done c t ∧ f c t = .done d ts) ∨ x = .failed ∧ k = .done d ts := by
  cases x with
  | done c t => exact .inl ⟨c, t, rfl, h⟩
  | failed => exact .inr ⟨rfl, h⟩
  | exhausted => cases h

end Matched

namespace Grammar

open Matched (elim)

variable {R : Type} (g : Grammar R)

/-- How matching ends, with no regard to what a failed match will report. -/
def outcome : Nat → Mode → Pattern R → Cursor → Matched R
  | 0, _, _, _ => .exhausted
  | n + 1, m, p, c =>
    let skip (c : Cursor) : Matched R :=
      match m with
      | .tight => .done c []
      | .spaced => outcome n .tight g.blank c
    match p with
    | .text cs =>
      match c.after? cs with
      | some d => .done d []
      | none => .failed
    | .satisfy f =>
      match c.rest with
      | [] => .failed
      | x :: xs => if f x then .done ⟨c.offset + x.utf8Size, xs⟩ [] else .failed
    | .finish => if c.rest.isEmpty then .done c [] else .failed
    | .seq a b => elim (outcome n m a c) (fun c₁ t₁ => elim (skip c₁) (fun c₂ _ =>
        elim (outcome n m b c₂) (fun c₃ t₃ => .done c₃ (t₁ ++ t₃)) .failed) .failed) .failed
    | .alt a b => elim (outcome n m a c) .done (outcome n m b c)
    | .star a => elim (outcome n m a c) (fun c₁ t₁ =>
        elim (outcome n m (.more a) c₁) (fun c₂ t₂ => .done c₂ (t₁ ++ t₂)) .failed) (.done c [])
    | .more a => elim (skip c) (fun c₁ _ => elim (outcome n m a c₁) (fun c₂ t₂ =>
        elim (outcome n m (.more a) c₂) (fun c₃ t₃ => .done c₃ (t₂ ++ t₃)) .failed) (.done c []))
        .failed
    | .absent a => elim (outcome n m a c) (fun _ _ => .failed) (.done c [])
    | .rule r =>
      match m with
      | .tight => outcome n .tight (g.body r) c
      | .spaced =>
        if g.isToken r then elim (outcome n .tight (g.body r) c)
          (fun d _ => .done d [.leaf r ⟨c.offset, d.offset⟩ (c.upTo d)]) .failed
        else elim (outcome n .spaced (g.body r) c)
          (fun d ts => .done d [.node r ⟨c.offset, d.offset⟩ ts]) .failed

/-- What is left after blanks are skipped. -/
def skipped (n : Nat) : Mode → Cursor → Matched R
  | .tight, c => .done c []
  | .spaced, c => g.outcome n .tight g.blank c

section Step

variable (n : Nat) (m : Mode) (a b : Pattern R) (c : Cursor)

theorem outcome_text (cs : List Char) : g.outcome (n + 1) m (.text cs) c =
    (c.after? cs).elim .failed fun d => .done d [] := by
  show (match c.after? cs with | some d => Matched.done d [] | none => .failed) = _
  cases c.after? cs <;> rfl

theorem outcome_satisfy_cons (f : Char → Bool) (o : Nat) (x : Char) (xs : List Char) :
    g.outcome (n + 1) m (.satisfy f) ⟨o, x :: xs⟩ =
      if f x then .done ⟨o + x.utf8Size, xs⟩ [] else .failed := rfl

theorem outcome_finish :
    g.outcome (n + 1) m .finish c = if c.rest.isEmpty then .done c [] else .failed := rfl

theorem outcome_seq : g.outcome (n + 1) m (.seq a b) c =
    elim (g.outcome n m a c) (fun c₁ t₁ => elim (g.skipped n m c₁) (fun c₂ _ =>
      elim (g.outcome n m b c₂) (fun c₃ t₃ => .done c₃ (t₁ ++ t₃)) .failed) .failed) .failed := by
  cases m <;> rfl

theorem outcome_alt : g.outcome (n + 1) m (.alt a b) c =
    elim (g.outcome n m a c) .done (g.outcome n m b c) := rfl

theorem outcome_star : g.outcome (n + 1) m (.star a) c = elim (g.outcome n m a c) (fun c₁ t₁ =>
    elim (g.outcome n m (.more a) c₁) (fun c₂ t₂ => .done c₂ (t₁ ++ t₂)) .failed) (.done c []) := rfl

theorem outcome_more : g.outcome (n + 1) m (.more a) c = elim (g.skipped n m c) (fun c₁ _ =>
    elim (g.outcome n m a c₁) (fun c₂ t₂ => elim (g.outcome n m (.more a) c₂)
      (fun c₃ t₃ => .done c₃ (t₂ ++ t₃)) .failed) (.done c [])) .failed := by
  cases m <;> rfl

theorem outcome_absent : g.outcome (n + 1) m (.absent a) c =
    elim (g.outcome n m a c) (fun _ _ => .failed) (.done c []) := rfl

theorem outcome_tight (r : R) :
    g.outcome (n + 1) .tight (.rule r) c = g.outcome n .tight (g.body r) c := rfl

theorem outcome_token {r : R} (hr : g.isToken r = true) :
    g.outcome (n + 1) .spaced (.rule r) c = elim (g.outcome n .tight (g.body r) c)
      (fun d _ => .done d [.leaf r ⟨c.offset, d.offset⟩ (c.upTo d)]) .failed :=
  if_pos hr

theorem outcome_node {r : R} (hr : g.isToken r = false) :
    g.outcome (n + 1) .spaced (.rule r) c = elim (g.outcome n .spaced (g.body r) c)
      (fun d ts => .done d [.node r ⟨c.offset, d.offset⟩ ts]) .failed :=
  if_neg (by simp [hr])

end Step

variable {g} {n : Nat} {m : Mode} {p : Pattern R} {c d : Cursor} {ts : List (Tree R)}

/-- What a failed match will report does not matter. -/
theorem fst_run (w : Attempts R) : (g.run n m p c w).1 = g.outcome n m p c := by
  induction n generalizing m p c w with
  | zero => rfl
  | succ n ih =>
    have hskip (c₁ : Cursor) : g.skip n m c₁ = g.skipped n m c₁ := by
      cases m with
      | tight => rfl
      | spaced => exact ih .none
    cases p with
    | text cs =>
      rw [run_text, outcome_text]
    | satisfy f =>
      obtain ⟨o, _ | ⟨x, xs⟩⟩ := c
      · rfl
      · rw [run_satisfy, outcome_satisfy_cons]
        cases hf : f x <;> simp [Option.filter, hf]
    | finish =>
      rw [run_finish, outcome_finish]
    | seq a b =>
      rw [run_seq, outcome_seq]
      refine Matched.fst_on (ih w) (fun c₁ t₁ w₁ => ?_) fun _ => rfl
      refine Matched.fst_on (hskip c₁) (fun c₂ t₂ w₂ => ?_) fun _ => rfl
      exact Matched.fst_on (ih w₂) (fun _ _ _ => rfl) fun _ => rfl
    | alt a b =>
      rw [run_alt, outcome_alt]
      exact Matched.fst_on (ih w) (fun _ _ _ => rfl) ih
    | star a =>
      rw [run_star, outcome_star]
      refine Matched.fst_on (ih w) (fun c₁ t₁ w₁ => ?_) fun _ => rfl
      exact Matched.fst_on (ih w₁) (fun _ _ _ => rfl) fun _ => rfl
    | more a =>
      rw [run_more, outcome_more]
      refine Matched.fst_on (hskip c) (fun c₁ t₁ w₁ => ?_) fun _ => rfl
      refine Matched.fst_on (ih w₁) (fun c₂ t₂ w₂ => ?_) fun _ => rfl
      exact Matched.fst_on (ih w₂) (fun _ _ _ => rfl) fun _ => rfl
    | absent a =>
      rw [run_absent, outcome_absent]
      exact Matched.fst_on (ih w) (fun _ _ _ => rfl) fun _ => rfl
    | rule r =>
      cases m with
      | tight =>
        rw [run_rule_tight, outcome_tight]
        exact ih w
      | spaced =>
        cases ht : g.isToken r with
        | true =>
          rw [run_rule_token _ _ _ _ ht, outcome_token _ _ _ ht]
          exact Matched.fst_on (ih w) (fun _ _ _ => rfl) fun _ => rfl
        | false =>
          rw [run_rule_node _ _ _ _ ht, outcome_node _ _ _ ht]
          exact Matched.fst_on (ih w) (fun _ _ _ => rfl) fun _ => rfl

theorem outcome_of_le {n' : Nat} (hn : n ≤ n') (h : g.outcome n m p c ≠ .exhausted) :
    g.outcome n' m p c = g.outcome n m p c := by
  rw [← fst_run .none] at h ⊢
  rw [← fst_run .none, run_of_le hn h]

/-! ## Laws of matching -/

variable (g)

/-- A pattern matches from one cursor to another, and builds trees. -/
def Takes (m : Mode) (p : Pattern R) (c d : Cursor) (ts : List (Tree R)) : Prop :=
  ∃ n, g.outcome n m p c = .done d ts

/-- A pattern does not match at a cursor. -/
def Fails (m : Mode) (p : Pattern R) (c : Cursor) : Prop := ∃ n, g.outcome n m p c = .failed

/-- Blanks are skipped between the parts of a sequence, unless it is in a token. -/
def Skips (m : Mode) (c d : Cursor) : Prop :=
  match m with
  | .tight => d = c
  | .spaced => ∃ ts, g.Takes .tight g.blank c d ts

variable {g}

theorem Takes.eventually (h : g.Takes m p c d ts) :
    ∃ n, ∀ k, n ≤ k → g.outcome k m p c = .done d ts := by
  obtain ⟨n, hn⟩ := h
  exact ⟨n, fun k hk => (outcome_of_le hk (by simp [hn])).trans hn⟩

theorem Fails.eventually (h : g.Fails m p c) : ∃ n, ∀ k, n ≤ k → g.outcome k m p c = .failed := by
  obtain ⟨n, hn⟩ := h
  exact ⟨n, fun k hk => (outcome_of_le hk (by simp [hn])).trans hn⟩

/-- Blanks are skipped in a sequence as soon as there is depth for it. -/
theorem Skips.eventually (h : g.Skips m c d) :
    ∃ n, ∀ k, n ≤ k → ∃ ts, g.skipped k m c = .done d ts := by
  cases m with
  | tight =>
    cases (show d = c from h)
    exact ⟨0, fun k _ => ⟨[], rfl⟩⟩
  | spaced =>
    obtain ⟨ts, h⟩ := h
    obtain ⟨n, hn⟩ := h.eventually
    exact ⟨n, fun k hk => ⟨ts, hn k hk⟩⟩

section Laws

variable {a b : Pattern R} {c₁ c₂ : Cursor} {t₁ t₂ : List (Tree R)}

theorem takes_text {cs : List Char} (h : c.after? cs = some d) : g.Takes m (.text cs) c d [] :=
  ⟨1, by rw [outcome_text, h]; rfl⟩

theorem fails_text {cs : List Char} (h : c.after? cs = none) : g.Fails m (.text cs) c :=
  ⟨1, by rw [outcome_text, h]; rfl⟩

theorem takes_satisfy {f : Char → Bool} {o : Nat} {x : Char} {xs : List Char} (h : f x = true) :
    g.Takes m (.satisfy f) ⟨o, x :: xs⟩ ⟨o + x.utf8Size, xs⟩ [] :=
  ⟨1, if_pos h⟩

theorem fails_satisfy {f : Char → Bool} (h : ∀ x ∈ c.rest.head?, f x = false) :
    g.Fails m (.satisfy f) c := by
  obtain ⟨o, _ | ⟨x, xs⟩⟩ := c
  · exact ⟨1, rfl⟩
  · exact ⟨1, if_neg (by simp [h x rfl])⟩

theorem takes_finish {o : Nat} : g.Takes m .finish ⟨o, []⟩ ⟨o, []⟩ [] := ⟨1, rfl⟩

theorem Takes.seq (ha : g.Takes m a c c₁ t₁) (hs : g.Skips m c₁ c₂) (hb : g.Takes m b c₂ d t₂) :
    g.Takes m (.seq a b) c d (t₁ ++ t₂) := by
  obtain ⟨i, ha⟩ := ha.eventually
  obtain ⟨j, hs⟩ := hs.eventually
  obtain ⟨k, hb⟩ := hb.eventually
  obtain ⟨ts, hs⟩ := hs (max i (max j k)) (by omega)
  refine ⟨max i (max j k) + 1, ?_⟩
  simp only [outcome_seq, ha (max i (max j k)) (by omega), hs, hb (max i (max j k)) (by omega), elim]

theorem Fails.seq_left (ha : g.Fails m a c) : g.Fails m (.seq a b) c := by
  obtain ⟨i, ha⟩ := ha
  exact ⟨i + 1, by simp only [outcome_seq, ha, elim]⟩

theorem Takes.seq_fails (ha : g.Takes m a c c₁ t₁) (hs : g.Skips m c₁ c₂) (hb : g.Fails m b c₂) :
    g.Fails m (.seq a b) c := by
  obtain ⟨i, ha⟩ := ha.eventually
  obtain ⟨j, hs⟩ := hs.eventually
  obtain ⟨k, hb⟩ := hb.eventually
  obtain ⟨ts, hs⟩ := hs (max i (max j k)) (by omega)
  refine ⟨max i (max j k) + 1, ?_⟩
  simp only [outcome_seq, ha (max i (max j k)) (by omega), hs, hb (max i (max j k)) (by omega), elim]

theorem Takes.alt_left (ha : g.Takes m a c d ts) : g.Takes m (.alt a b) c d ts := by
  obtain ⟨i, ha⟩ := ha
  exact ⟨i + 1, by simp only [outcome_alt, ha, elim]⟩

theorem Fails.alt_takes (ha : g.Fails m a c) (hb : g.Takes m b c d ts) :
    g.Takes m (.alt a b) c d ts := by
  obtain ⟨i, ha⟩ := ha.eventually
  obtain ⟨j, hb⟩ := hb.eventually
  refine ⟨max i j + 1, ?_⟩
  simp only [outcome_alt, ha (max i j) (by omega), hb (max i j) (by omega), elim]

theorem Fails.alt (ha : g.Fails m a c) (hb : g.Fails m b c) : g.Fails m (.alt a b) c := by
  obtain ⟨i, ha⟩ := ha.eventually
  obtain ⟨j, hb⟩ := hb.eventually
  refine ⟨max i j + 1, ?_⟩
  simp only [outcome_alt, ha (max i j) (by omega), hb (max i j) (by omega), elim]

theorem Fails.star (ha : g.Fails m a c) : g.Takes m (.star a) c c [] := by
  obtain ⟨i, ha⟩ := ha
  exact ⟨i + 1, by simp only [outcome_star, ha, elim]⟩

theorem Takes.star (ha : g.Takes m a c c₁ t₁) (hm : g.Takes m (.more a) c₁ d t₂) :
    g.Takes m (.star a) c d (t₁ ++ t₂) := by
  obtain ⟨i, ha⟩ := ha.eventually
  obtain ⟨j, hm⟩ := hm.eventually
  refine ⟨max i j + 1, ?_⟩
  simp only [outcome_star, ha (max i j) (by omega), hm (max i j) (by omega), elim]

theorem Fails.more (hs : g.Skips m c c₁) (ha : g.Fails m a c₁) : g.Takes m (.more a) c c [] := by
  obtain ⟨i, hs⟩ := hs.eventually
  obtain ⟨j, ha⟩ := ha.eventually
  obtain ⟨ts, hs⟩ := hs (max i j) (by omega)
  refine ⟨max i j + 1, ?_⟩
  simp only [outcome_more, hs, ha (max i j) (by omega), elim]

theorem Takes.more (hs : g.Skips m c c₁) (ha : g.Takes m a c₁ c₂ t₁)
    (hm : g.Takes m (.more a) c₂ d t₂) : g.Takes m (.more a) c d (t₁ ++ t₂) := by
  obtain ⟨i, hs⟩ := hs.eventually
  obtain ⟨j, ha⟩ := ha.eventually
  obtain ⟨k, hm⟩ := hm.eventually
  obtain ⟨ts, hs⟩ := hs (max i (max j k)) (by omega)
  refine ⟨max i (max j k) + 1, ?_⟩
  simp only [outcome_more, hs, ha (max i (max j k)) (by omega), hm (max i (max j k)) (by omega), elim]

theorem Fails.absent (ha : g.Fails m a c) : g.Takes m (.absent a) c c [] := by
  obtain ⟨i, ha⟩ := ha
  exact ⟨i + 1, by simp only [outcome_absent, ha, elim]⟩

theorem Takes.absent (ha : g.Takes m a c d ts) : g.Fails m (.absent a) c := by
  obtain ⟨i, ha⟩ := ha
  exact ⟨i + 1, by simp only [outcome_absent, ha, elim]⟩

theorem Takes.token {r : R} (hr : g.isToken r = true) (h : g.Takes .tight (g.body r) c d ts) :
    g.Takes .spaced (.rule r) c d [.leaf r ⟨c.offset, d.offset⟩ (c.upTo d)] := by
  obtain ⟨i, h⟩ := h
  exact ⟨i + 1, by rw [outcome_token _ _ _ hr, h]; rfl⟩

theorem Takes.node {r : R} (hr : g.isToken r = false) (h : g.Takes .spaced (g.body r) c d ts) :
    g.Takes .spaced (.rule r) c d [.node r ⟨c.offset, d.offset⟩ ts] := by
  obtain ⟨i, h⟩ := h
  exact ⟨i + 1, by rw [outcome_node _ _ _ hr, h]; rfl⟩

theorem Fails.token {r : R} (hr : g.isToken r = true) (h : g.Fails .tight (g.body r) c) :
    g.Fails .spaced (.rule r) c := by
  obtain ⟨i, h⟩ := h
  exact ⟨i + 1, by rw [outcome_token _ _ _ hr, h]; rfl⟩

theorem Fails.node {r : R} (hr : g.isToken r = false) (h : g.Fails .spaced (g.body r) c) :
    g.Fails .spaced (.rule r) c := by
  obtain ⟨i, h⟩ := h
  exact ⟨i + 1, by rw [outcome_node _ _ _ hr, h]; rfl⟩

end Laws

/-! ## What is taken -/

/-- A match takes characters from the front. -/
theorem passes_of_outcome (h : g.outcome n m p c = .done d ts) :
    ∃ cs, c.rest = cs ++ d.rest ∧ d.offset = c.offset + sizeOfChars cs := by
  induction n generalizing m p c d ts with
  | zero => cases h
  | succ n ih =>
    have nothing (c : Cursor) :
        ∃ cs, c.rest = cs ++ c.rest ∧ c.offset = c.offset + sizeOfChars cs := ⟨[], rfl, rfl⟩
    have trans {c₁ c₂ c₃ : Cursor}
        (h : ∃ cs, c₁.rest = cs ++ c₂.rest ∧ c₂.offset = c₁.offset + sizeOfChars cs)
        (h' : ∃ cs, c₂.rest = cs ++ c₃.rest ∧ c₃.offset = c₂.offset + sizeOfChars cs) :
        ∃ cs, c₁.rest = cs ++ c₃.rest ∧ c₃.offset = c₁.offset + sizeOfChars cs := by
      obtain ⟨cs, hr, ho⟩ := h
      obtain ⟨cs', hr', ho'⟩ := h'
      refine ⟨cs ++ cs', by rw [hr, hr', List.append_assoc], ?_⟩
      rw [ho', ho, sizeOfChars, sizeOfChars, sizeOfChars, List.map_append, List.sum_append,
        Nat.add_assoc]
    have hskip {c₁ c₂ : Cursor} {t} (hs : g.skipped n m c₁ = .done c₂ t) :
        ∃ cs, c₁.rest = cs ++ c₂.rest ∧ c₂.offset = c₁.offset + sizeOfChars cs := by
      cases m with
      | tight =>
        cases hs
        exact nothing c₁
      | spaced => exact ih hs
    cases p with
    | text cs =>
      rw [outcome_text] at h
      cases hd : c.after? cs with
      | none =>
        rw [hd] at h
        cases h
      | some e =>
        rw [hd] at h
        cases h
        exact ⟨cs, Cursor.after?_eq_some hd⟩
    | satisfy f =>
      obtain ⟨o, _ | ⟨x, xs⟩⟩ := c
      · cases h
      · rw [outcome_satisfy_cons] at h
        split at h
        · cases h
          exact ⟨[x], rfl, rfl⟩
        · cases h
    | finish =>
      rw [outcome_finish] at h
      split at h
      · cases h
        exact nothing c
      · cases h
    | seq a b =>
      rw [outcome_seq] at h
      obtain ⟨c₁, t₁, ha, h⟩ | ⟨-, h⟩ := Matched.elim_eq_done h
      · obtain ⟨c₂, t₂, hs, h⟩ | ⟨-, h⟩ := Matched.elim_eq_done h
        · obtain ⟨c₃, t₃, hb, h⟩ | ⟨-, h⟩ := Matched.elim_eq_done h
          · cases h
            exact trans (ih ha) (trans (hskip hs) (ih hb))
          · cases h
        · cases h
      · cases h
    | alt a b =>
      rw [outcome_alt] at h
      obtain ⟨c₁, t₁, ha, h⟩ | ⟨-, h⟩ := Matched.elim_eq_done h
      · cases h
        exact ih ha
      · exact ih h
    | star a =>
      rw [outcome_star] at h
      obtain ⟨c₁, t₁, ha, h⟩ | ⟨-, h⟩ := Matched.elim_eq_done h
      · obtain ⟨c₂, t₂, hm, h⟩ | ⟨-, h⟩ := Matched.elim_eq_done h
        · cases h
          exact trans (ih ha) (ih hm)
        · cases h
      · cases h
        exact nothing c
    | more a =>
      rw [outcome_more] at h
      obtain ⟨c₁, t₁, hs, h⟩ | ⟨-, h⟩ := Matched.elim_eq_done h
      · obtain ⟨c₂, t₂, ha, h⟩ | ⟨-, h⟩ := Matched.elim_eq_done h
        · obtain ⟨c₃, t₃, hm, h⟩ | ⟨-, h⟩ := Matched.elim_eq_done h
          · cases h
            exact trans (hskip hs) (trans (ih ha) (ih hm))
          · cases h
        · cases h
          exact nothing c
      · cases h
    | absent a =>
      rw [outcome_absent] at h
      obtain ⟨c₁, t₁, -, h⟩ | ⟨-, h⟩ := Matched.elim_eq_done h
      · cases h
      · cases h
        exact nothing c
    | rule r =>
      cases m with
      | tight => exact ih (show g.outcome n .tight (g.body r) c = .done d ts from h)
      | spaced =>
        cases ht : g.isToken r with
        | true =>
          rw [outcome_token _ _ _ ht] at h
          obtain ⟨c₁, t₁, ha, h⟩ | ⟨-, h⟩ := Matched.elim_eq_done h
          · cases h
            exact ih ha
          · cases h
        | false =>
          rw [outcome_node _ _ _ ht] at h
          obtain ⟨c₁, t₁, ha, h⟩ | ⟨-, h⟩ := Matched.elim_eq_done h
          · cases h
            exact ih ha
          · cases h

/-- The characters that a pattern has taken. -/
theorem Takes.upTo (h : g.Takes m p c d ts) {cs : List Char} (hc : c.rest = cs ++ d.rest) :
    c.upTo d = cs := by
  obtain ⟨n, hn⟩ := h
  obtain ⟨cs', hr, ho⟩ := passes_of_outcome hn
  have he : cs' = cs := List.append_cancel_right (hr.symm.trans hc)
  rw [Cursor.upTo, ho, hr, Cursor.charsUpTo_append, he]

/-! ## The matcher -/

section Matcher

variable {limit : Nat} (b : g.Bounds limit)
include b

/-- **The matcher does what the laws say**, if it does not run out of depth. -/
theorem Bounds.run_of_takes (hp : p.fits b.takes b.depth (b.cost m) limit = true)
    (hn : p.rank b.takes b.depth (b.cost m) + limit * c.rest.length ≤ n)
    (h : g.Takes m p c d ts) (w : Attempts R) : (g.run n m p c w).1 = .done d ts := by
  obtain ⟨k, hk⟩ := h.eventually
  have hne : g.outcome n m p c ≠ .exhausted := by
    rw [← fst_run w]
    exact b.run_ne_exhausted hp hn
  rw [fst_run, ← outcome_of_le (Nat.le_max_left n k) hne]
  exact hk _ (Nat.le_max_right n k)

end Matcher

end Grammar

end Dataflow
