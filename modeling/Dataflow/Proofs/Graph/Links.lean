import Mathlib
import Dataflow.Graph.Build

/-!
# Walks along sibling links

A walk reaches every function that can be reached through links, and no other: it can take as many
steps as there are functions, and every function is followed at most once.

* `Walk.Sound`: what a walk knows at any time;
* `follow_iff`: what is reached in the end;
* **`mem_reachable`**: the functions that can be reached from a function.
-/

namespace Dataflow

namespace Draft

open Relation

/-- Function `a` has a link to function `b`. -/
def LinksTo (links : Array (Array Nat)) (a b : Nat) : Prop := b ∈ links.getD a #[]

namespace Walk

/-- Function `i` was met on a walk that began at `start`. -/
def Known (start : Nat) (w : Walk) (i : Nat) : Prop := i = start ∨ i ∈ w.reached

/-- How many steps a walk can take. -/
def room (w : Walk) : Nat := w.seen.toList.count false + w.todo.length

/-- What holds of a walk at any time. -/
structure Sound (links : Array (Array Nat)) (n start : Nat) (w : Walk) : Prop where
  size : w.seen.size = n
  seen_iff : ∀ i < n, w.seen.getD i true = true ↔ w.Known start i
  start_notMem : start ∉ w.reached
  reach : ∀ i, w.Known start i → ReflTransGen (LinksTo links) start i
  todo_known : ∀ i ∈ w.todo, w.Known start i

variable {links : Array (Array Nat)} {n start : Nat} {w : Walk}

theorem meet_of_seen {i : Nat} (h : w.seen.getD i true = true) : w.meet i = w := by
  rw [meet, if_pos h]

theorem meet_of_unseen {i : Nat} (h : ¬ w.seen.getD i true = true) : w.meet i =
    ⟨w.reached.push i, i :: w.todo, w.seen.setIfInBounds i true⟩ := by
  rw [meet, if_neg h]

theorem count_set_true (seen : Array Bool) {i : Nat} (h : ¬ seen.getD i true = true) :
    (seen.setIfInBounds i true).toList.count false + 1 = seen.toList.count false := by
  rw [Array.getD_eq_getD_getElem?] at h
  have hi : i < seen.size := by
    refine Nat.lt_of_not_le fun hge => h ?_
    rw [Array.getElem?_eq_none hge]
    rfl
  rw [Array.getElem?_eq_getElem hi, Option.getD_some, Bool.not_eq_true] at h
  have hi' : i < seen.toList.length := by simpa using hi
  have hf : seen.toList[i] = false := by simpa using h
  have hpos : 0 < seen.toList.count false :=
    List.count_pos_iff.mpr (hf ▸ List.getElem_mem hi')
  rw [Array.toList_setIfInBounds, List.count_set hi', hf]
  simp only [BEq.rfl, ↓reduceIte, Bool.beq_eq_decide_eq, Bool.true_eq_false, decide_false,
    Bool.false_eq_true]
  omega

theorem room_meet (w : Walk) (i : Nat) : (w.meet i).room = w.room := by
  by_cases h : w.seen.getD i true = true
  · rw [meet_of_seen h]
  · have hc := count_set_true w.seen h
    rw [meet_of_unseen h]
    simp only [room, List.length_cons]
    omega

theorem Sound.known_meet (h : w.Sound links n start) {i : Nat} (hi : i < n) (j : Nat) :
    (w.meet i).Known start j ↔ w.Known start j ∨ j = i := by
  by_cases hs : w.seen.getD i true = true
  · rw [meet_of_seen hs]
    refine ⟨.inl, fun hj => ?_⟩
    rcases hj with hj | rfl
    · exact hj
    · exact (h.seen_iff j hi).mp hs
  · rw [meet_of_unseen hs]
    simp only [Known, Array.mem_push, or_assoc]

theorem Sound.meet (h : w.Sound links n start) {i : Nat} (hi : i < n)
    (hr : ReflTransGen (LinksTo links) start i) : (w.meet i).Sound links n start := by
  have hk := h.known_meet hi
  have hreach (j : Nat) (hj : (w.meet i).Known start j) :
      ReflTransGen (LinksTo links) start j := by
    rcases (hk j).mp hj with hj | rfl
    · exact h.reach j hj
    · exact hr
  by_cases hs : w.seen.getD i true = true
  · rw [meet_of_seen hs]
    exact h
  · have hne : ¬ w.Known start i := fun hn => hs ((h.seen_iff i hi).mpr hn)
    rw [meet_of_unseen hs] at hk hreach ⊢
    refine ⟨?_, fun j hj => ?_, ?_, hreach, fun j hj => ?_⟩
    · rw [Array.size_setIfInBounds, h.size]
    · rw [hk j, ← h.seen_iff j hj, Array.getD_eq_getD_getElem?, Array.getElem?_setIfInBounds,
        Array.getD_eq_getD_getElem?]
      by_cases hij : i = j
      · subst hij
        simp [h.size, hi]
      · simp [hij, Ne.symm hij]
    · rw [Array.mem_push]
      rintro (hm | rfl)
      · exact h.start_notMem hm
      · exact hne (.inl rfl)
    · rcases List.mem_cons.mp hj with rfl | hj
      · exact (hk j).mpr (.inr rfl)
      · exact (hk j).mpr (.inl (h.todo_known j hj))

/-- Meeting functions adds no finished ones. -/
theorem Sound.finished_meet (h : w.Sound links n start) {i : Nat} (hi : i < n) {j : Nat}
    (hj : (w.meet i).Known start j) (ht : j ∉ (w.meet i).todo) : w.Known start j ∧ j ∉ w.todo := by
  by_cases hs : w.seen.getD i true = true
  · rw [meet_of_seen hs] at hj ht
    exact ⟨hj, ht⟩
  · have hk := (h.known_meet hi j).mp hj
    rw [meet_of_unseen hs, List.mem_cons, not_or] at ht
    exact ⟨hk.resolve_right ht.1, ht.2⟩

/-- What holds after a list of functions has been met. -/
theorem Sound.foldl_meet (h : w.Sound links n start) (is : List Nat) (hn : ∀ i ∈ is, i < n)
    (hr : ∀ i ∈ is, ReflTransGen (LinksTo links) start i) :
    (is.foldl Walk.meet w).Sound links n start ∧ (is.foldl Walk.meet w).room = w.room ∧
      (∀ j, (is.foldl Walk.meet w).Known start j ↔ w.Known start j ∨ j ∈ is) ∧
      ∀ j, (is.foldl Walk.meet w).Known start j → j ∉ (is.foldl Walk.meet w).todo →
        w.Known start j ∧ j ∉ w.todo := by
  induction is generalizing w with
  | nil => exact ⟨h, rfl, fun j => by simp, fun j hj ht => ⟨hj, ht⟩⟩
  | cons i is ih =>
    have hi : i < n := hn i (by simp)
    obtain ⟨hs, hroom, hk, hf⟩ := ih (h.meet hi (hr i (by simp)))
      (fun j hj => hn j (List.mem_cons_of_mem _ hj)) fun j hj => hr j (List.mem_cons_of_mem _ hj)
    refine ⟨hs, hroom.trans (w.room_meet i), fun j => ?_, fun j hj ht => ?_⟩
    · rw [List.foldl_cons, hk j, h.known_meet hi j, List.mem_cons, or_assoc]
    · obtain ⟨hj, ht⟩ := hf j hj ht
      exact h.finished_meet hi hj ht

end Walk

/-- What is reached when nothing is left to be followed. -/
theorem mem_reached_iff {links : Array (Array Nat)} {n start : Nat} {w : Walk}
    (h : w.Sound links n start)
    (hc : ∀ i, w.Known start i → ∀ j, LinksTo links i j → w.Known start j) (i : Nat) :
    i ∈ w.reached ↔ i ≠ start ∧ ReflTransGen (LinksTo links) start i := by
  constructor
  · intro hi
    exact ⟨fun he => h.start_notMem (he ▸ hi), h.reach i (.inr hi)⟩
  · rintro ⟨hne, hr⟩
    have hk : w.Known start i := by
      induction hr with
      | refl => exact .inl rfl
      | tail _ hl ih =>
        rename_i b c _
        by_cases hb : b = start
        · exact hc b (.inl hb) c hl
        · exact hc b (ih hb) c hl
    exact hk.resolve_left hne

/-- What is reached in the end, if there is room for all steps. -/
theorem follow_iff {links : Array (Array Nat)} {n start : Nat}
    (hl : ∀ a b, LinksTo links a b → b < n) (fuel : Nat) (w : Walk) (h : w.Sound links n start)
    (hc : ∀ i, w.Known start i → i ∉ w.todo → ∀ j, LinksTo links i j → w.Known start j)
    (hf : w.room ≤ fuel) (i : Nat) :
    i ∈ follow links fuel w ↔ i ≠ start ∧ ReflTransGen (LinksTo links) start i := by
  induction fuel generalizing w with
  | zero =>
    have ht : w.todo = [] := by
      rw [Walk.room] at hf
      exact List.length_eq_zero_iff.mp (by omega)
    exact mem_reached_iff h (fun i hi => hc i hi (by simp [ht])) i
  | succ fuel ih =>
    rw [follow]
    cases ht : w.todo with
    | nil => exact mem_reached_iff h (fun i hi => hc i hi (by simp [ht])) i
    | cons current todo =>
      dsimp only
      have hcur : w.Known start current := h.todo_known current (by simp [ht])
      have h₀ : Walk.Sound links n start { w with todo } :=
        ⟨h.size, h.seen_iff, h.start_notMem, h.reach,
          fun j hj => h.todo_known j (by simp [ht, hj])⟩
      have hlinks (j : Nat) (hj : j ∈ (links.getD current #[]).toList) : LinksTo links current j := by
        simpa [LinksTo] using hj
      obtain ⟨hs, hroom, hk, hfin⟩ := h₀.foldl_meet (links.getD current #[]).toList
        (fun j hj => hl current j (hlinks j hj))
        fun j hj => (h.reach current hcur).tail (hlinks j hj)
      rw [← Array.foldl_toList]
      refine ih _ hs (fun j hj hjt k hjk => ?_) ?_
      · obtain ⟨hj, hjt⟩ := hfin j hj hjt
        refine (hk k).mpr ?_
        by_cases he : j = current
        · subst he
          exact .inr (by simpa [LinksTo] using hjk)
        · exact .inl (hc j hj (by simp [ht, he, hjt]) k hjk)
      · rw [hroom]
        simp only [Walk.room, ht, List.length_cons] at hf ⊢
        omega

/-- The functions that can be reached from a function: all that a chain of links leads to. -/
theorem mem_reachable {d : Draft} (hl : ∀ a b, LinksTo d.links a b → b < d.functionCount)
    {start : Nat} (hs : start < d.functionCount) (i : Nat) :
    i ∈ d.reachable start ↔ i ≠ start ∧ ReflTransGen (LinksTo d.links) start i := by
  refine follow_iff hl (d.functionCount + 1) _ ⟨?_, fun j hj => ?_, ?_, fun j hj => ?_, fun j hj => ?_⟩
    (fun j hj ht => ?_) ?_ i
  · simp
  · rw [Array.getD_eq_getD_getElem?, Array.getElem?_setIfInBounds]
    by_cases he : start = j
    · subst he
      simp [Walk.Known, hs]
    · simp [Walk.Known, he, Ne.symm he, hj]
  · simp
  · rcases hj with rfl | hj
    · exact .refl
    · simp at hj
  · exact .inl (by simpa using hj)
  · rcases hj with rfl | hj
    · simp at ht
    · simp at hj
  · have hc := Walk.count_set_true (Array.replicate d.functionCount false) (i := start)
      (by simp [Array.getD_eq_getD_getElem?, hs])
    simp only [Array.toList_replicate, List.count_replicate, BEq.rfl, ↓reduceIte] at hc
    simp only [Walk.room, List.length_singleton]
    omega

end Draft

end Dataflow
