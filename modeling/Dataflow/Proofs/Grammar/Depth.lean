import Dataflow.Grammar.Match

/-!
# The depth of matching

Matching recurs to a depth that is taken from the length of the input. Where every repetition takes
characters and no rule comes back to itself without taking one, that depth is always enough.

* `Pattern.takes`: patterns that take a character whenever they match;
* `Pattern.rank`: how deep matching goes before it takes a character;
* `Grammar.Bounds`: bounds on the ranks of the rules of a grammar;
* `Grammar.run_succ`: a match that ends is the same at every greater depth;
* **`Grammar.run_ne_exhausted`**: matching does not run out of depth.
-/

namespace Dataflow

namespace Pattern

variable {R : Type}

/-- Whether a pattern takes a character whenever it matches, given which rules do. -/
def takes (rules : R → Bool) : Pattern R → Bool
  | text cs => !cs.isEmpty
  | satisfy _ => true
  | rule r => rules r
  | seq a b => a.takes rules || b.takes rules
  | alt a b => a.takes rules && b.takes rules
  | finish | star _ | more _ | absent _ => false

/-- How deep matching goes before it takes a character, given the same of the rules and of the
blanks that are skipped. -/
def rank (rules : R → Bool) (depth : R → Nat) (skip : Nat) : Pattern R → Nat
  | text _ | satisfy _ | finish => 1
  | rule r => depth r
  | seq a b =>
    1 + max (a.rank rules depth skip)
      (if a.takes rules then 0 else max skip (b.rank rules depth skip))
  | alt a b => 1 + max (a.rank rules depth skip) (b.rank rules depth skip)
  | more a => 1 + max skip (a.rank rules depth skip)
  | star a | absent a => 1 + a.rank rules depth skip

/-- Whether every repetition takes characters, and no part has a rank above `limit`. -/
def fits (rules : R → Bool) (depth : R → Nat) (skip limit : Nat) : Pattern R → Bool
  | text _ | satisfy _ | finish | rule _ => true
  | seq a b =>
    a.fits rules depth skip limit && b.fits rules depth skip limit &&
      b.rank rules depth skip ≤ limit
  | alt a b => a.fits rules depth skip limit && b.fits rules depth skip limit
  | star a | more a =>
    a.fits rules depth skip limit && a.takes rules && (more a).rank rules depth skip ≤ limit
  | absent a => a.fits rules depth skip limit

end Pattern

namespace Grammar

variable {R : Type}

/-- Bounds on how deep a grammar goes before it takes a character: `depth` for its rules, `skip`
for blanks and `limit` for everything. -/
structure Bounds (g : Grammar R) (limit : Nat) where
  takes : R → Bool
  depth : R → Nat
  skip : Nat
  skip_le : skip ≤ limit
  depth_le (r : R) : depth r ≤ limit
  takes_body (r : R) : takes r = true → (g.body r).takes takes = true
  rank_body (r : R) : ∀ s ∈ [0, skip], (g.body r).rank takes depth s < depth r
  fits_body (r : R) : ∀ s ∈ [0, skip], (g.body r).fits takes depth s limit = true
  rank_blank : g.blank.rank takes depth 0 ≤ skip
  fits_blank : g.blank.fits takes depth 0 limit = true

namespace Bounds

variable {g : Grammar R} {limit : Nat} (b : g.Bounds limit)

/-- What skipping blanks costs. -/
def cost : Mode → Nat
  | .tight => 0
  | .spaced => b.skip

theorem cost_mem (m : Mode) : b.cost m ∈ [0, b.skip] := by cases m <;> simp [cost]

theorem cost_le (m : Mode) : b.cost m ≤ limit := by
  cases m with
  | tight => exact Nat.zero_le _
  | spaced => exact b.skip_le

end Bounds

end Grammar

theorem Cursor.length_after? {cs : List Char} {c d : Cursor} (h : c.after? cs = some d) :
    d.rest.length + cs.length = c.rest.length := by
  induction cs generalizing c with
  | nil =>
    cases h
    rfl
  | cons x xs ih =>
    obtain ⟨offset, rest⟩ := c
    cases rest with
    | nil => cases h
    | cons y ys =>
      rw [after?] at h
      dsimp only at h
      split at h
      · have := ih h
        simp only [List.length_cons] at this ⊢
        omega
      · cases h

/-! ## One step of matching -/

namespace Matched

variable {R : Type}

/-- Goes on after a match or after a failure. -/
def on (x : Matched R × Attempts R)
    (done : Cursor → List (Tree R) → Attempts R → Matched R × Attempts R)
    (failed : Attempts R → Matched R × Attempts R) : Matched R × Attempts R :=
  match x with
  | (.done c ts, w) => done c ts w
  | (.failed, w) => failed w
  | (.exhausted, w) => (.exhausted, w)

/-- Fails. -/
def fail (w : Attempts R) : Matched R × Attempts R := (.failed, w)

variable {x y : Matched R × Attempts R}
  {f f' : Cursor → List (Tree R) → Attempts R → Matched R × Attempts R}
  {k k' : Attempts R → Matched R × Attempts R}

theorem on_eq_done {d : Cursor} {ts : List (Tree R)} {w : Attempts R}
    (h : on x f k = (.done d ts, w)) :
    (∃ c t w₁, x = (.done c t, w₁) ∧ f c t w₁ = (.done d ts, w)) ∨
      ∃ w₁, x = (.failed, w₁) ∧ k w₁ = (.done d ts, w) := by
  obtain ⟨_ | _ | _, w₁⟩ := x
  · exact .inl ⟨_, _, _, rfl, h⟩
  · exact .inr ⟨_, rfl, h⟩
  · cases h

theorem on_eq_done_fail {d : Cursor} {ts : List (Tree R)} {w : Attempts R}
    (h : on x f fail = (.done d ts, w)) :
    ∃ c t w₁, x = (.done c t, w₁) ∧ f c t w₁ = (.done d ts, w) := by
  obtain h | ⟨w₁, -, h⟩ := on_eq_done h
  · exact h
  · cases h

theorem on_ne_exhausted (hx : x.1 ≠ .exhausted)
    (hf : ∀ c t w, x = (.done c t, w) → (f c t w).1 ≠ .exhausted)
    (hk : ∀ w, x = (.failed, w) → (k w).1 ≠ .exhausted) : (on x f k).1 ≠ .exhausted := by
  obtain ⟨_ | _ | _, w₁⟩ := x
  · exact hf _ _ _ rfl
  · exact hk _ rfl
  · exact absurd rfl hx

theorem on_congr (h : (on x f k).1 ≠ .exhausted) (hx : x.1 ≠ .exhausted → y = x)
    (hf : ∀ c t w, (f c t w).1 ≠ .exhausted → f' c t w = f c t w)
    (hk : ∀ w, (k w).1 ≠ .exhausted → k' w = k w) : on y f' k' = on x f k := by
  obtain ⟨_ | _ | _, w₁⟩ := x
  · rw [hx (by simp)]
    exact hf _ _ _ h
  · rw [hx (by simp)]
    exact hk _ h
  · exact absurd rfl h

end Matched

namespace Grammar

open Matched (on fail)

variable {R : Type} {g : Grammar R} {limit : Nat}

/-- What is left after blanks are skipped. -/
def skip (g : Grammar R) (n : Nat) : Mode → Cursor → Matched R
  | .tight, c => .done c []
  | .spaced, c => (g.run n .tight g.blank c .none).1

/-- One step of matching a pattern that is not a rule. -/
def stepped (g : Grammar R) (n : Nat) (m : Mode) (p : Pattern R) (c : Cursor) (w : Attempts R) :
    Matched R × Attempts R :=
  match p with
  | .text cs => ((c.after? cs).elim .failed (.done · []), w)
  | .satisfy f =>
    ((c.rest.head?.filter f).elim .failed fun x => .done ⟨c.offset + x.utf8Size, c.rest.tail⟩ [], w)
  | .finish => (if c.rest.isEmpty then .done c [] else .failed, w)
  | .seq a b =>
    on (g.run n m a c w) (fun c₁ t₁ w₁ => on (g.skip n m c₁, w₁)
      (fun c₂ _ w₂ => on (g.run n m b c₂ w₂) (fun c₃ t₃ w₃ => (.done c₃ (t₁ ++ t₃), w₃)) fail)
      fail) fail
  | .alt a b =>
    on (g.run n m a c w) (fun c₁ t₁ w₁ => (.done c₁ t₁, w₁)) fun w₁ => g.run n m b c w₁
  | .star a =>
    on (g.run n m a c w) (fun c₁ t₁ w₁ => on (g.run n m (.more a) c₁ w₁)
      (fun c₂ t₂ w₂ => (.done c₂ (t₁ ++ t₂), w₂)) fail) fun w₁ => (.done c [], w₁)
  | .more a =>
    on (g.skip n m c, w) (fun c₁ _ w₁ => on (g.run n m a c₁ w₁)
      (fun c₂ t₂ w₂ => on (g.run n m (.more a) c₂ w₂)
        (fun c₃ t₃ w₃ => (.done c₃ (t₂ ++ t₃), w₃)) fail)
      fun w₂ => (.done c [], w₂)) fail
  | .absent a => on ((g.run n m a c w).1, w) (fun _ _ w => fail w) fun w => (.done c [], w)
  | .rule r => g.run (n + 1) m (.rule r) c w

section Step

variable (g) (n : Nat) (m : Mode) (a b : Pattern R) (c : Cursor) (w : Attempts R)

/-- What a match does first, and how it goes on. -/
theorem run_eq_stepped (p : Pattern R) : g.run (n + 1) m p c w = g.stepped n m p c w := by
  cases p with
  | rule r => rfl
  | text cs =>
    rw [run, stepped]
    cases c.after? cs <;> rfl
  | satisfy f =>
    obtain ⟨o, _ | ⟨x, xs⟩⟩ := c
    · rfl
    · rw [run, stepped]
      cases hf : f x <;> simp [Option.filter, hf]
  | finish =>
    rw [run, stepped]
    split <;> rfl
  | seq a b =>
    rw [run, stepped]
    obtain ⟨c₁ | _ | _, w₁⟩ := g.run n m a c w
    · cases m with
      | spaced =>
        dsimp only [on, skip]
        obtain ⟨c₂ | _ | _, w₂⟩ := g.run n .tight g.blank c₁ .none
        · dsimp only [on]
          obtain ⟨_ | _ | _, w₃⟩ := g.run n .spaced b c₂ w₁ <;> rfl
        · rfl
        · rfl
      | tight =>
        dsimp only [on, skip]
        obtain ⟨_ | _ | _, w₃⟩ := g.run n .tight b c₁ w₁ <;> rfl
    · rfl
    · rfl
  | alt a b =>
    rw [run, stepped]
    obtain ⟨_ | _ | _, w₁⟩ := g.run n m a c w <;> rfl
  | star a =>
    rw [run, stepped]
    obtain ⟨_ | _ | _, w₁⟩ := g.run n m a c w
    · dsimp only [on]
      obtain ⟨_ | _ | _, w₂⟩ := g.run n m (.more a) _ w₁ <;> rfl
    · rfl
    · rfl
  | more a =>
    rw [run, stepped]
    cases m with
    | spaced =>
      dsimp only [on, skip]
      obtain ⟨c₁ | _ | _, w₁⟩ := g.run n .tight g.blank c .none
      · dsimp only [on]
        obtain ⟨c₂ | _ | _, w₂⟩ := g.run n .spaced a c₁ w
        · dsimp only [on]
          obtain ⟨_ | _ | _, w₃⟩ := g.run n .spaced (.more a) c₂ w₂ <;> rfl
        · rfl
        · rfl
      · rfl
      · rfl
    | tight =>
      dsimp only [on, skip]
      obtain ⟨c₂ | _ | _, w₂⟩ := g.run n .tight a c w
      · dsimp only [on]
        obtain ⟨_ | _ | _, w₃⟩ := g.run n .tight (.more a) c₂ w₂ <;> rfl
      · rfl
      · rfl
  | absent a =>
    rw [run, stepped]
    obtain ⟨_ | _ | _, w₁⟩ := g.run n m a c w <;> rfl

theorem run_text (cs : List Char) : g.run (n + 1) m (.text cs) c w =
    ((c.after? cs).elim .failed (.done · []), w) := run_eq_stepped ..

theorem run_satisfy (f : Char → Bool) : g.run (n + 1) m (.satisfy f) c w =
    ((c.rest.head?.filter f).elim .failed
      fun x => .done ⟨c.offset + x.utf8Size, c.rest.tail⟩ [], w) := run_eq_stepped ..

theorem run_finish : g.run (n + 1) m .finish c w =
    (if c.rest.isEmpty then .done c [] else .failed, w) := run_eq_stepped ..

theorem run_seq : g.run (n + 1) m (.seq a b) c w =
    on (g.run n m a c w) (fun c₁ t₁ w₁ => on (g.skip n m c₁, w₁)
      (fun c₂ _ w₂ => on (g.run n m b c₂ w₂) (fun c₃ t₃ w₃ => (.done c₃ (t₁ ++ t₃), w₃)) fail)
      fail) fail := run_eq_stepped ..

theorem run_alt : g.run (n + 1) m (.alt a b) c w =
    on (g.run n m a c w) (fun c₁ t₁ w₁ => (.done c₁ t₁, w₁)) fun w₁ => g.run n m b c w₁ :=
  run_eq_stepped ..

theorem run_star : g.run (n + 1) m (.star a) c w =
    on (g.run n m a c w) (fun c₁ t₁ w₁ => on (g.run n m (.more a) c₁ w₁)
      (fun c₂ t₂ w₂ => (.done c₂ (t₁ ++ t₂), w₂)) fail) fun w₁ => (.done c [], w₁) :=
  run_eq_stepped ..

theorem run_more : g.run (n + 1) m (.more a) c w =
    on (g.skip n m c, w) (fun c₁ _ w₁ => on (g.run n m a c₁ w₁)
      (fun c₂ t₂ w₂ => on (g.run n m (.more a) c₂ w₂)
        (fun c₃ t₃ w₃ => (.done c₃ (t₂ ++ t₃), w₃)) fail)
      fun w₂ => (.done c [], w₂)) fail := run_eq_stepped ..

theorem run_absent : g.run (n + 1) m (.absent a) c w =
    on ((g.run n m a c w).1, w) (fun _ _ w => fail w) fun w => (.done c [], w) :=
  run_eq_stepped ..

theorem run_rule_tight (r : R) :
    g.run (n + 1) .tight (.rule r) c w = g.run n .tight (g.body r) c w := rfl

theorem run_rule_token {r : R} (h : g.isToken r = true) :
    g.run (n + 1) .spaced (.rule r) c w =
      on (g.run n .tight (g.body r) c w)
        (fun d _ w₁ => (.done d [.leaf r ⟨c.offset, d.offset⟩ (c.upTo d)], w₁))
        fun w₁ => (.failed, w.fail w₁ r c.offset) := by
  refine (if_pos h).trans ?_
  obtain ⟨_ | _ | _, w₁⟩ := g.run n .tight (g.body r) c w <;> rfl

theorem run_rule_node {r : R} (h : g.isToken r = false) :
    g.run (n + 1) .spaced (.rule r) c w =
      on (g.run n .spaced (g.body r) c w)
        (fun d ts w₁ => (.done d [.node r ⟨c.offset, d.offset⟩ ts], w₁))
        fun w₁ => (.failed, w.fail w₁ r c.offset) := by
  refine (if_neg (by simp [h])).trans ?_
  obtain ⟨_ | _ | _, w₁⟩ := g.run n .spaced (g.body r) c w <;> rfl

end Step

/-! ## What a match leaves -/

section Bounds

variable (b : g.Bounds limit) {n : Nat} {m : Mode} {p : Pattern R} {c d : Cursor}
  {w w' : Attempts R} {ts : List (Tree R)}

/-- A match leaves no more than there was, and less if its pattern takes something. -/
theorem Bounds.length_run (h : g.run n m p c w = (.done d ts, w')) :
    d.rest.length ≤ c.rest.length ∧ (p.takes b.takes = true → d.rest.length < c.rest.length) := by
  induction n generalizing m p c d w w' ts with
  | zero => cases h
  | succ n ih =>
    have hskip {c₁ c₂ : Cursor} {t} (hs : g.skip n m c₁ = .done c₂ t) :
        c₂.rest.length ≤ c₁.rest.length := by
      cases m with
      | tight =>
        cases hs
        exact Nat.le_refl _
      | spaced => exact (ih (Prod.ext hs rfl)).1
    cases p with
    | text cs =>
      rw [run_text] at h
      cases hd : c.after? cs with
      | none =>
        rw [hd] at h
        cases h
      | some e =>
        rw [hd] at h
        cases h
        have := Cursor.length_after? hd
        refine ⟨by omega, fun ht => ?_⟩
        have : 0 < cs.length := List.length_pos_iff.mpr (by simpa [Pattern.takes] using ht)
        omega
    | satisfy f =>
      rw [run_satisfy] at h
      obtain ⟨o, _ | ⟨x, xs⟩⟩ := c
      · cases h
      · cases hf : f x with
        | false => simp [Option.filter, hf] at h
        | true =>
          simp only [List.head?_cons, Option.filter, hf, if_true] at h
          cases h
          simp
    | finish =>
      rw [run_finish] at h
      split at h
      · cases h
        exact ⟨Nat.le_refl _, fun ht => by cases ht⟩
      · cases h
    | rule r =>
      have hbody {m' ts' w₁ d'} (hb : g.run n m' (g.body r) c w = (.done d' ts', w₁)) :
          d'.rest.length ≤ c.rest.length ∧ (b.takes r = true → d'.rest.length < c.rest.length) :=
        ⟨(ih hb).1, fun ht => (ih hb).2 (b.takes_body r ht)⟩
      cases m with
      | tight => exact hbody h
      | spaced =>
        cases ht : g.isToken r with
        | true =>
          rw [run_rule_token _ _ _ _ ht] at h
          obtain ⟨c₁, t₁, w₁, ha, h⟩ | ⟨w₁, -, h⟩ := Matched.on_eq_done h
          · cases h
            exact hbody ha
          · cases h
        | false =>
          rw [run_rule_node _ _ _ _ ht] at h
          obtain ⟨c₁, t₁, w₁, ha, h⟩ | ⟨w₁, -, h⟩ := Matched.on_eq_done h
          · cases h
            exact hbody ha
          · cases h
    | seq a a' =>
      rw [run_seq] at h
      obtain ⟨c₁, t₁, w₁, ha, h⟩ := Matched.on_eq_done_fail h
      obtain ⟨c₂, t₂, w₂, hs, h⟩ := Matched.on_eq_done_fail h
      obtain ⟨c₃, t₃, w₃, hb, h⟩ := Matched.on_eq_done_fail h
      cases h
      have hs := hskip (congrArg Prod.fst hs)
      obtain ⟨ha, ha'⟩ := ih ha
      obtain ⟨hb, hb'⟩ := ih hb
      refine ⟨by omega, fun ht => ?_⟩
      rw [Pattern.takes, Bool.or_eq_true] at ht
      obtain ht | ht := ht
      · have := ha' ht
        omega
      · have := hb' ht
        omega
    | alt a a' =>
      rw [run_alt] at h
      have htakes (ht : (a.alt a').takes b.takes = true) :
          a.takes b.takes = true ∧ a'.takes b.takes = true := by
        rwa [Pattern.takes, Bool.and_eq_true] at ht
      obtain ⟨c₁, t₁, w₁, ha, h⟩ | ⟨w₁, -, h⟩ := Matched.on_eq_done h
      · cases h
        exact ⟨(ih ha).1, fun ht => (ih ha).2 (htakes ht).1⟩
      · exact ⟨(ih h).1, fun ht => (ih h).2 (htakes ht).2⟩
    | star a =>
      rw [run_star] at h
      refine ⟨?_, fun ht => by cases ht⟩
      obtain ⟨c₁, t₁, w₁, ha, h⟩ | ⟨w₁, -, h⟩ := Matched.on_eq_done h
      · obtain ⟨c₂, t₂, w₂, hm, h⟩ := Matched.on_eq_done_fail h
        cases h
        exact Nat.le_trans (ih hm).1 (ih ha).1
      · cases h
        exact Nat.le_refl _
    | more a =>
      rw [run_more] at h
      refine ⟨?_, fun ht => by cases ht⟩
      obtain ⟨c₁, t₁, w₁, hs, h⟩ := Matched.on_eq_done_fail h
      have hs := hskip (congrArg Prod.fst hs)
      obtain ⟨c₂, t₂, w₂, ha, h⟩ | ⟨w₂, -, h⟩ := Matched.on_eq_done h
      · obtain ⟨c₃, t₃, w₃, hm, h⟩ := Matched.on_eq_done_fail h
        cases h
        exact Nat.le_trans (Nat.le_trans (ih hm).1 (ih ha).1) hs
      · cases h
        exact Nat.le_refl _
    | absent a =>
      rw [run_absent] at h
      refine ⟨?_, fun ht => by cases ht⟩
      obtain ⟨c₁, t₁, w₁, -, h⟩ | ⟨w₁, -, h⟩ := Matched.on_eq_done h
      · cases h
      · cases h
        exact Nat.le_refl _

theorem Bounds.rank_pos (p : Pattern R) (s : Nat) : 0 < p.rank b.takes b.depth s := by
  cases p with
  | rule r => exact Nat.lt_of_le_of_lt (Nat.zero_le _) (b.rank_body r 0 (by simp))
  | text | satisfy | finish => exact Nat.zero_lt_one
  | seq | alt | star | more | absent =>
    rw [Pattern.rank]
    omega

/-- **Matching does not run out of depth**, when there is enough of it for what is left. -/
theorem Bounds.run_ne_exhausted (hp : p.fits b.takes b.depth (b.cost m) limit = true)
    (hn : p.rank b.takes b.depth (b.cost m) + limit * c.rest.length ≤ n) :
    (g.run n m p c w).1 ≠ .exhausted := by
  induction n generalizing m p c w with
  | zero =>
    have := b.rank_pos p (b.cost m)
    omega
  | succ n ih =>
    -- depth that is left for what comes after a character has been taken, and after none has
    have less {x y : Nat} (h : x < y) : limit * x + limit ≤ limit * y := by
      rw [← Nat.mul_succ]
      exact Nat.mul_le_mul_left _ h
    have same {x y : Nat} (h : x ≤ y) : limit * x ≤ limit * y := Nat.mul_le_mul_left _ h
    have hskip {c₁ : Cursor} (h : b.cost m + limit * c₁.rest.length ≤ n) :
        g.skip n m c₁ ≠ .exhausted := by
      cases m with
      | tight => exact nofun
      | spaced =>
        exact ih b.fits_blank (Nat.le_trans (Nat.add_le_add_right b.rank_blank _) h)
    have hlength {c₁ c₂ : Cursor} {t} (hs : g.skip n m c₁ = .done c₂ t) :
        c₂.rest.length ≤ c₁.rest.length := by
      cases m with
      | tight =>
        cases hs
        exact Nat.le_refl _
      | spaced => exact (b.length_run (Prod.ext hs rfl)).1
    have hcost := b.cost_le m
    cases p with
    | text cs =>
      rw [run_text]
      cases c.after? cs <;> simp
    | satisfy f =>
      rw [run_satisfy]
      cases c.rest.head?.filter f <;> simp
    | finish =>
      rw [run_finish]
      dsimp only
      split <;> simp
    | rule r =>
      rw [Pattern.rank] at hn
      have hbody (m' : Mode) : (g.run n m' (g.body r) c w).1 ≠ .exhausted := by
        have := b.rank_body r _ (b.cost_mem m')
        exact ih (b.fits_body r _ (b.cost_mem m')) (by omega)
      cases m with
      | tight => exact hbody .tight
      | spaced =>
        cases ht : g.isToken r with
        | true =>
          rw [run_rule_token _ _ _ _ ht]
          exact Matched.on_ne_exhausted (hbody .tight) (by simp) (by simp)
        | false =>
          rw [run_rule_node _ _ _ _ ht]
          exact Matched.on_ne_exhausted (hbody .spaced) (by simp) (by simp)
    | seq a a' =>
      simp only [Pattern.fits, Bool.and_eq_true, decide_eq_true_eq] at hp
      rw [Pattern.rank] at hn
      rw [run_seq]
      refine Matched.on_ne_exhausted (ih hp.1.1 (by omega)) (fun c₁ t₁ w₁ ha => ?_)
        (by simp [fail])
      obtain ⟨hle, hlt⟩ := b.length_run ha
      have hroom : max (b.cost m) (a'.rank b.takes b.depth (b.cost m)) +
          limit * c₁.rest.length ≤ n := by
        split at hn
        · rename_i ht
          have := less (hlt ht)
          omega
        · have := same hle
          omega
      refine Matched.on_ne_exhausted (hskip (by omega)) (fun c₂ t₂ w₂ hs => ?_) (by simp [fail])
      have := same (hlength (congrArg Prod.fst hs))
      exact Matched.on_ne_exhausted (ih hp.1.2 (by omega)) (by simp) (by simp [fail])
    | alt a a' =>
      rw [Pattern.fits, Bool.and_eq_true] at hp
      rw [Pattern.rank] at hn
      rw [run_alt]
      exact Matched.on_ne_exhausted (ih hp.1 (by omega)) (by simp) fun w₁ _ => ih hp.2 (by omega)
    | star a =>
      simp only [Pattern.fits, Bool.and_eq_true, decide_eq_true_eq] at hp
      rw [Pattern.rank] at hn
      rw [run_star]
      refine Matched.on_ne_exhausted (ih hp.1.1 (by omega)) (fun c₁ t₁ w₁ ha => ?_) (by simp)
      have := less ((b.length_run ha).2 hp.1.2)
      refine Matched.on_ne_exhausted (ih ?_ (by omega)) (by simp) (by simp [fail])
      simpa [Pattern.fits] using hp
    | more a =>
      have hfits := hp
      simp only [Pattern.fits, Bool.and_eq_true, decide_eq_true_eq] at hp
      rw [Pattern.rank] at hn
      rw [run_more]
      refine Matched.on_ne_exhausted (hskip (by omega)) (fun c₁ t₁ w₁ hs => ?_) (by simp [fail])
      have := same (hlength (congrArg Prod.fst hs))
      refine Matched.on_ne_exhausted (ih hp.1.1 (by omega)) (fun c₂ t₂ w₂ ha => ?_) (by simp)
      have := less ((b.length_run ha).2 hp.1.2)
      exact Matched.on_ne_exhausted (ih hfits (by omega)) (by simp) (by simp [fail])
    | absent a =>
      rw [Pattern.fits] at hp
      rw [Pattern.rank] at hn
      rw [run_absent]
      exact Matched.on_ne_exhausted (ih hp (by omega)) (by simp [fail]) (by simp)

end Bounds

/-- A match that ends is the same at a greater depth. -/
theorem run_succ {n : Nat} {m : Mode} {p : Pattern R} {c : Cursor} {w : Attempts R}
    (h : (g.run n m p c w).1 ≠ .exhausted) : g.run (n + 1) m p c w = g.run n m p c w := by
  induction n generalizing m p c w with
  | zero => exact absurd rfl h
  | succ n ih =>
    have hskip (c₁ : Cursor) (w₁ : Attempts R) (h : g.skip n m c₁ ≠ .exhausted) :
        (g.skip (n + 1) m c₁, w₁) = (g.skip n m c₁, w₁) := by
      cases m with
      | tight => rfl
      | spaced => exact congrArg (·.1, w₁) (ih h)
    cases p with
    | text | satisfy | finish => simp only [run_text, run_satisfy, run_finish]
    | rule r =>
      cases m with
      | tight => exact ih h
      | spaced =>
        cases ht : g.isToken r with
        | true =>
          rw [run_rule_token _ _ _ _ ht] at h ⊢
          rw [run_rule_token _ _ _ _ ht]
          exact Matched.on_congr h ih (fun _ _ _ _ => rfl) fun _ _ => rfl
        | false =>
          rw [run_rule_node _ _ _ _ ht] at h ⊢
          rw [run_rule_node _ _ _ _ ht]
          exact Matched.on_congr h ih (fun _ _ _ _ => rfl) fun _ _ => rfl
    | seq a b =>
      rw [run_seq] at h ⊢
      rw [run_seq]
      refine Matched.on_congr h ih (fun c₁ t₁ w₁ h => ?_) fun _ _ => rfl
      refine Matched.on_congr h (hskip c₁ w₁) (fun c₂ t₂ w₂ h => ?_) fun _ _ => rfl
      exact Matched.on_congr h ih (fun _ _ _ _ => rfl) fun _ _ => rfl
    | alt a b =>
      rw [run_alt] at h ⊢
      rw [run_alt]
      exact Matched.on_congr h ih (fun _ _ _ _ => rfl) fun _ h => ih h
    | star a =>
      rw [run_star] at h ⊢
      rw [run_star]
      refine Matched.on_congr h ih (fun c₁ t₁ w₁ h => ?_) fun _ _ => rfl
      exact Matched.on_congr h ih (fun _ _ _ _ => rfl) fun _ _ => rfl
    | more a =>
      rw [run_more] at h ⊢
      rw [run_more]
      refine Matched.on_congr h (hskip c w) (fun c₁ t₁ w₁ h => ?_) fun _ _ => rfl
      refine Matched.on_congr h ih (fun c₂ t₂ w₂ h => ?_) fun _ _ => rfl
      exact Matched.on_congr h ih (fun _ _ _ _ => rfl) fun _ _ => rfl
    | absent a =>
      rw [run_absent] at h ⊢
      rw [run_absent]
      exact Matched.on_congr h (fun h => congrArg (·.1, w) (ih h)) (fun _ _ _ _ => rfl) fun _ _ => rfl

theorem run_of_le {n n' : Nat} {m : Mode} {p : Pattern R} {c : Cursor} {w : Attempts R}
    (hn : n ≤ n') (h : (g.run n m p c w).1 ≠ .exhausted) : g.run n' m p c w = g.run n m p c w := by
  induction hn with
  | refl => rfl
  | step _ ih => rw [run_succ (ih ▸ h), ih]

end Grammar

end Dataflow
