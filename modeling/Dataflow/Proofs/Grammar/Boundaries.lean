import Dataflow.Proofs.Grammar.Matches

/-!
# Boundaries of characters

Matching moves from character to character, so whatever it records is the offset of one of them or
the end of the text: where a match begins and ends, and where a rule failed.

* `Boundary`: the offsets between the characters of a text;
* `Cursor.On`: a cursor in a text;
* `Cursor.On.of_outcome`: where a match ends;
* **`Grammar.furthest_boundary`**: where the furthest failure is.
-/

namespace Dataflow

/-- The sizes of the beginnings of a text. -/
def Boundary (text : List Char) (n : Nat) : Prop :=
  ∃ before after, text = before ++ after ∧ sizeOfChars before = n

theorem sizeOfChars_append (cs ds : List Char) :
    sizeOfChars (cs ++ ds) = sizeOfChars cs + sizeOfChars ds := by
  rw [sizeOfChars, List.map_append, List.sum_append, sizeOfChars, sizeOfChars]

theorem sizeOfChars_toList (s : String) : sizeOfChars s.toList = s.utf8ByteSize := by
  have h (cs : List Char) : sizeOfChars cs = String.utf8Len cs := by
    induction cs with
    | nil => rfl
    | cons c cs ih =>
      rw [sizeOfChars, List.map_cons, List.sum_cons, String.utf8Len_cons, ← ih, Nat.add_comm]
      rfl
  rw [h, ← String.utf8ByteSize_ofList, String.ofList_toList]

namespace Boundary

variable {text : List Char} {n : Nat}

theorem zero (text : List Char) : Boundary text 0 := ⟨[], text, rfl, rfl⟩

theorem size (text : List Char) : Boundary text (sizeOfChars text) :=
  ⟨text, [], (List.append_nil _).symm, rfl⟩

theorem le_size (h : Boundary text n) : n ≤ sizeOfChars text := by
  obtain ⟨before, after, rfl, rfl⟩ := h
  rw [sizeOfChars_append]
  exact Nat.le_add_right _ _

end Boundary

/-- A cursor in a text. -/
def Cursor.On (text : List Char) (c : Cursor) : Prop :=
  ∃ before, text = before ++ c.rest ∧ sizeOfChars before = c.offset

namespace Cursor.On

variable {R : Type} {g : Grammar R} {text : List Char} {n : Nat} {m : Mode} {p : Pattern R}
  {c d : Cursor} {ts : List (Tree R)}

theorem start (text : List Char) : (Cursor.start text).On text := ⟨[], rfl, rfl⟩

theorem boundary (h : c.On text) : Boundary text c.offset := by
  obtain ⟨before, ht, hs⟩ := h
  exact ⟨before, c.rest, ht, hs⟩

theorem of_outcome (h : c.On text) (ho : g.outcome n m p c = .done d ts) :
    d.On text ∧ c.offset ≤ d.offset := by
  obtain ⟨before, rfl, hs⟩ := h
  obtain ⟨cs, hr, hd⟩ := Grammar.passes_of_outcome ho
  exact ⟨⟨before ++ cs, by rw [hr, List.append_assoc], by rw [sizeOfChars_append, hs, hd]⟩,
    hd ▸ Nat.le_add_right _ _⟩

theorem of_skipped (h : c.On text) (ho : g.skipped n m c = .done d ts) :
    d.On text ∧ c.offset ≤ d.offset := by
  cases m with
  | tight =>
    cases ho
    exact ⟨h, Nat.le_refl _⟩
  | spaced => exact h.of_outcome ho

end Cursor.On

/-! ## Failures -/

/-- The furthest failure is at a character of a text or at its end. -/
def Attempts.On {R : Type} (text : List Char) (w : Attempts R) : Prop := Boundary text w.furthest

theorem Attempts.furthest_fail {R : Type} (before after : Attempts R) (r : R) (p : Nat) :
    (before.fail after r p).furthest = after.furthest ∨ (before.fail after r p).furthest = p := by
  unfold fail
  dsimp only
  split_ifs <;> simp

theorem Matched.on_keeps {R : Type} {I : Attempts R → Prop} {x : Matched R × Attempts R}
    {done : Cursor → List (Tree R) → Attempts R → Matched R × Attempts R}
    {failed : Attempts R → Matched R × Attempts R} (hx : I x.2)
    (hd : ∀ {c ts w}, x.1 = .done c ts → I w → I (done c ts w).2) (hf : ∀ {w}, I w → I (failed w).2) :
    I (Matched.on x done failed).2 := by
  obtain ⟨_ | _ | _, w⟩ := x
  · exact hd rfl hx
  · exact hf hx
  · exact hx

namespace Grammar

variable {R : Type} {g : Grammar R} {text : List Char} {n : Nat} {m : Mode} {p : Pattern R} {c : Cursor}

/-- **The furthest failure is at a character or at the end.** -/
theorem furthest_boundary (hc : c.On text) {w : Attempts R} (hw : w.On text) :
    (g.run n m p c w).2.On text := by
  induction n generalizing m p c w with
  | zero => exact hw
  | succ n ih =>
    -- the cursor behind a part of the match
    have behind {m p c} (hc : c.On text) {w d ts} (h : (g.run n m p c w).1 = .done d ts) : d.On text :=
      (hc.of_outcome (fst_run w ▸ h)).1
    have skipped {c} (hc : c.On text) {d ts} (h : g.skip n m c = .done d ts) : d.On text := by
      cases m with
      | tight =>
        cases h
        exact hc
      | spaced => exact behind hc h
    cases p with
    | text cs =>
      rw [run_text]
      exact hw
    | satisfy f =>
      rw [run_satisfy]
      exact hw
    | finish =>
      rw [run_finish]
      exact hw
    | seq a b =>
      rw [run_seq]
      refine Matched.on_keeps (I := Attempts.On text) (ih hc hw) (fun ha hw => ?_) id
      refine Matched.on_keeps (I := Attempts.On text) hw (fun hs hw => ?_) id
      exact Matched.on_keeps (I := Attempts.On text) (ih (skipped (behind hc ha) hs) hw) (fun _ => id) id
    | alt a b =>
      rw [run_alt]
      exact Matched.on_keeps (I := Attempts.On text) (ih hc hw) (fun _ => id) (ih hc)
    | star a =>
      rw [run_star]
      refine Matched.on_keeps (I := Attempts.On text) (ih hc hw) (fun ha hw => ?_) id
      exact Matched.on_keeps (I := Attempts.On text) (ih (behind hc ha) hw) (fun _ => id) id
    | more a =>
      rw [run_more]
      refine Matched.on_keeps (I := Attempts.On text) hw (fun hs hw => ?_) id
      refine Matched.on_keeps (I := Attempts.On text) (ih (skipped hc hs) hw) (fun ha hw => ?_) id
      exact Matched.on_keeps (I := Attempts.On text) (ih (behind (skipped hc hs) ha) hw) (fun _ => id) id
    | absent a =>
      rw [run_absent]
      exact Matched.on_keeps (I := Attempts.On text) hw (fun _ => id) id
    | rule r =>
      -- a rule that fails is recorded where it was entered
      have hfail {w' : Attempts R} (hw' : w'.On text) : (w.fail w' r c.offset).On text := by
        unfold Attempts.On
        obtain h | h := Attempts.furthest_fail w w' r c.offset
        · rw [h]
          exact hw'
        · rw [h]
          exact hc.boundary
      cases m with
      | tight => exact ih hc hw
      | spaced =>
        cases hr : g.isToken r with
        | true =>
          rw [run_rule_token _ _ _ _ hr]
          exact Matched.on_keeps (I := Attempts.On text) (ih hc hw) (fun _ => id) hfail
        | false =>
          rw [run_rule_node _ _ _ _ hr]
          exact Matched.on_keeps (I := Attempts.On text) (ih hc hw) (fun _ => id) hfail

end Grammar

end Dataflow
