import Mathlib
import Dataflow.Graph.Peel

/-!
# The order of visits

The nodes that are visited come each after all that it waits for, and what is left over waits for
something that is left over as well.

* `Peel.Peels`: such an order;
* `Peel.Counts`: the counts and ready nodes on the way;
* **`Peel.peels_order`**: the visits are in such an order;
* `Peel.mem_missing`: the nodes that are left over.
-/

namespace Dataflow.Peel

/-- An order of visits after those of `done`, of `n` nodes. -/
inductive Peels (n : Nat) (rows : List (List Nat)) : List Nat → List Nat → Prop where
  | nil {done : List Nat}
    (h : ∀ i < n, i ∉ done → ∃ j, i ∈ rows.getD j [] ∧ j ∉ done) : Peels n rows done []
  | cons {done : List Nat} {i : Nat} {out : List Nat} (hlt : i < n) (hi : i ∉ done)
    (hfree : ∀ j, i ∈ rows.getD j [] → j ∈ done) (h : Peels n rows (i :: done) out) :
    Peels n rows done (i :: out)

/-! ## Counts -/

/-- How often visited nodes list a node as waiting. -/
def settled (rows : List (List Nat)) (done : List Nat) (i : Nat) : Nat :=
  (done.map fun j => (rows.getD j []).count i).sum

theorem count_flatten {rows : List (List Nat)} {n : Nat} (hn : rows.length ≤ n) (i : Nat) :
    rows.flatten.count i = settled rows (List.range n) i := by
  obtain ⟨k, rfl⟩ := Nat.exists_eq_add_of_le hn
  have hrows : rows = (List.range rows.length).map fun j => rows.getD j [] := by
    refine List.ext_getElem (by simp) fun j h _ => ?_
    simp [List.getD_eq_getElem?_getD, List.getElem?_eq_getElem h]
  have hrest : ((List.range k).map fun j => (rows.getD (rows.length + j) []).count i).sum = 0 := by
    refine List.sum_eq_zero_iff_forall_eq_nat.mpr fun x hx => ?_
    obtain ⟨j, -, rfl⟩ := List.mem_map.mp hx
    rw [List.getD_eq_default _ _ (Nat.le_add_right _ _)]
    rfl
  rw [List.count_flatten, settled, List.range_add, List.map_append, List.sum_append, List.map_map]
  conv_lhs => rw [hrows]
  rw [List.map_map]
  exact (Nat.add_eq_left.mpr hrest).symm

/-- The nodes that have not been visited list the others as waiting. -/
theorem count_flatten_eq_add {rows : List (List Nat)} {n : Nat} (hn : rows.length ≤ n)
    {done : List Nat} (hd : done.Nodup) (hlt : ∀ j ∈ done, j < n) (i : Nat) :
    rows.flatten.count i =
      settled rows done i + settled rows ((List.range n).filter (· ∉ done)) i := by
  have hperm : (done ++ (List.range n).filter (· ∉ done)).Perm (List.range n) := by
    refine (List.perm_ext_iff_of_nodup ?_ List.nodup_range).mpr fun j => ?_
    · refine List.Nodup.append hd (List.nodup_range.filter _) fun j hj hj' => ?_
      exact absurd hj (by simpa using (List.mem_filter.mp hj').2)
    · by_cases hj : j ∈ done
      · simp [hj, hlt j hj]
      · simp [hj]
  rw [count_flatten hn, settled, ← (hperm.map _).sum_eq, List.map_append, List.sum_append]
  rfl

/-- All that a node waits for has been visited exactly if everything is settled. -/
theorem settled_eq_iff {rows : List (List Nat)} {n : Nat} (hn : rows.length ≤ n)
    {done : List Nat} (hd : done.Nodup) (hlt : ∀ j ∈ done, j < n) (i : Nat) :
    settled rows done i = rows.flatten.count i ↔ ∀ j, i ∈ rows.getD j [] → j ∈ done := by
  rw [count_flatten_eq_add hn hd hlt]
  constructor
  · intro h j hj
    refine Decidable.byContradiction fun hnot => ?_
    have hzero : settled rows ((List.range n).filter (· ∉ done)) i = 0 := by omega
    have hjl : j < n := by
      refine Nat.lt_of_lt_of_le (Nat.lt_of_not_le fun hle => ?_) hn
      rw [List.getD_eq_default _ _ hle] at hj
      cases hj
    have := List.sum_eq_zero_iff_forall_eq_nat.mp hzero _ (List.mem_map.mpr
      ⟨j, List.mem_filter.mpr ⟨List.mem_range.mpr hjl, by simpa using hnot⟩, rfl⟩)
    exact absurd hj (List.count_eq_zero.mp this)
  · intro h
    have hzero : settled rows ((List.range n).filter (· ∉ done)) i = 0 := by
      refine List.sum_eq_zero_iff_forall_eq_nat.mpr fun x hx => ?_
      obtain ⟨j, hj, rfl⟩ := List.mem_map.mp hx
      refine List.count_eq_zero.mpr fun hi => ?_
      exact absurd (h j hi) (by simpa using (List.mem_filter.mp hj).2)
    omega

/-! ## Visits -/

theorem getD_setIfInBounds {α : Type} (xs : Array α) (i j : Nat) (v d : α) :
    (xs.setIfInBounds i v).getD j d = if j = i ∧ i < xs.size then v else xs.getD j d := by
  rw [Array.getD_eq_getD_getElem?, Array.getElem?_setIfInBounds, Array.getD_eq_getD_getElem?]
  by_cases hj : i = j
  · subst hj
    by_cases hi : i < xs.size
    · simp [hi]
    · simp [hi]
  · simp [hj, Ne.symm hj]

theorem insert_perm (i : Nat) (xs : List Nat) : (insert i xs).Perm (i :: xs) := by
  induction xs with
  | nil => rfl
  | cons x xs ih =>
    rw [insert]
    split
    · rfl
    · exact (ih.cons x).trans (.swap i x xs)

/-- What holds when some nodes that were waited for have been visited. -/
structure Released (xs : List Nat) (ds : Array Nat) (ready : List Nat) (ds' : Array Nat)
    (ready' : List Nat) : Prop where
  size : ds'.size = ds.size
  counts : ∀ x < ds.size, ds'.getD x 0 + xs.count x = ds.getD x 0
  nodup : ready'.Nodup
  mem_iff : ∀ x, x ∈ ready' ↔ x ∈ ready ∨ (x < ds.size ∧ x ∈ xs ∧ ds'.getD x 0 = 0)

theorem released (xs : List Nat) {ds : Array Nat} {ready : List Nat} (hr : ready.Nodup)
    (hle : ∀ x < ds.size, xs.count x ≤ ds.getD x 0) (hz : ∀ x ∈ ready, ds.getD x 0 = 0) :
    Released xs ds ready (xs.foldl release (ds, ready)).1 (xs.foldl release (ds, ready)).2 := by
  induction xs generalizing ds ready with
  | nil => exact ⟨rfl, fun x _ => by simp, hr, fun x => by simp⟩
  | cons i xs ih =>
    rw [List.foldl_cons]
    by_cases hi : i < ds.size
    · have hk := hle i hi
      rw [List.count_cons_self] at hk
      have hget : ds[i]? = some (ds.getD i 0) := by
        rw [Array.getD_eq_getD_getElem?, Array.getElem?_eq_getElem hi]
        rfl
      have hset (x : Nat) : (ds.setIfInBounds i (ds.getD i 0 - 1)).getD x 0 =
          if x = i then ds.getD i 0 - 1 else ds.getD x 0 := by
        simp only [getD_setIfInBounds, hi, and_true]
      have hnot : i ∉ ready := fun h => by
        have := hz i h
        omega
      obtain ⟨ready₁, hready₁, hmem, hnodup⟩ : ∃ ready₁, release (ds, ready) i =
          (ds.setIfInBounds i (ds.getD i 0 - 1), ready₁) ∧
          (∀ x, x ∈ ready₁ ↔ x ∈ ready ∨ (x = i ∧ ds.getD i 0 - 1 = 0)) ∧ ready₁.Nodup := by
        rw [release, hget]
        by_cases h0 : ds.getD i 0 - 1 = 0
        · refine ⟨insert i ready, by dsimp only; rw [if_pos h0], fun x => ?_, ?_⟩
          · rw [(insert_perm i ready).mem_iff, List.mem_cons, or_comm, and_iff_left h0]
          · exact (insert_perm i ready).nodup_iff.mpr (List.nodup_cons.mpr ⟨hnot, hr⟩)
        · exact ⟨ready, by dsimp only; rw [if_neg h0], fun x => ⟨.inl, fun h => h.resolve_right
            fun h => h0 h.2⟩, hr⟩
      rw [hready₁]
      have hsize : (ds.setIfInBounds i (ds.getD i 0 - 1)).size = ds.size :=
        Array.size_setIfInBounds
      have h := @ih (ds.setIfInBounds i (ds.getD i 0 - 1)) ready₁ hnodup (fun x hx => ?_)
        fun x hx => ?_
      · refine ⟨h.size.trans hsize, fun x hx => ?_, h.nodup, fun x => ?_⟩
        · have hc := h.counts x (hsize ▸ hx)
          rw [hset] at hc
          by_cases hxi : x = i
          · subst hxi
            rw [if_pos rfl] at hc
            rw [List.count_cons_self]
            omega
          · rw [if_neg hxi] at hc
            rw [List.count_cons_of_ne (Ne.symm hxi), hc]
        · have hc := h.counts i (hsize ▸ hi)
          rw [hset, if_pos rfl] at hc
          rw [h.mem_iff, hmem, hsize, List.mem_cons]
          constructor
          · rintro ((hx | ⟨rfl, h0⟩) | ⟨hx, hm, h0⟩)
            · exact .inl hx
            · exact .inr ⟨hi, .inl rfl, by omega⟩
            · exact .inr ⟨hx, .inr hm, h0⟩
          · rintro (hx | ⟨hx, rfl | hm, h0⟩)
            · exact .inl (.inl hx)
            · by_cases hm : x ∈ xs
              · exact .inr ⟨hx, hm, h0⟩
              · rw [List.count_eq_zero.mpr hm] at hc
                exact .inl (.inr ⟨rfl, by omega⟩)
            · exact .inr ⟨hx, hm, h0⟩
      · rw [hset]
        have hx' := hle x (hsize ▸ hx)
        by_cases hxi : x = i
        · rw [if_pos hxi, hxi]
          omega
        · rwa [if_neg hxi, ← List.count_cons_of_ne (Ne.symm hxi)]
      · rw [hset]
        rcases (hmem x).mp hx with hx | ⟨rfl, h0⟩
        · rw [if_neg (by rintro rfl; exact hnot hx)]
          exact hz x hx
        · rw [if_pos rfl, h0]
    · have hnone : ds[i]? = none := Array.getElem?_eq_none (Nat.le_of_not_lt hi)
      have hrel : release (ds, ready) i = (ds, ready) := by
        rw [release, hnone]
      rw [hrel]
      have h := ih hr (fun x hx => ?_) hz
      · refine ⟨h.size, fun x hx => ?_, h.nodup, fun x => ?_⟩
        · rw [List.count_cons_of_ne (by rintro rfl; exact hi hx)]
          exact h.counts x hx
        · rw [h.mem_iff]
          constructor
          · rintro (hx | ⟨hx, hm, h0⟩)
            · exact .inl hx
            · exact .inr ⟨hx, .tail _ hm, h0⟩
          · rintro (hx | ⟨hx, hm, h0⟩)
            · exact .inl hx
            · rcases List.mem_cons.mp hm with rfl | hm
              · exact (hi hx).elim
              · exact .inr ⟨hx, hm, h0⟩
      · exact Nat.le_trans (List.count_le_count_cons ..) (hle x hx)

/-- The counts and the ready nodes after the visits of `done`. -/
structure Counts (n : Nat) (rows : List (List Nat)) (done : List Nat) (ds : Array Nat)
    (ready : List Nat) : Prop where
  size : ds.size = n
  lt : ∀ i ∈ done, i < n
  nodup : done.Nodup
  zero : ∀ i ∈ done, ds.getD i 0 = 0
  owed : ∀ i < n, ds.getD i 0 + settled rows done i = rows.flatten.count i
  ready_nodup : ready.Nodup
  mem_ready : ∀ i, i ∈ ready ↔ i < n ∧ i ∉ done ∧ ds.getD i 0 = 0

namespace Counts

variable {n : Nat} {rows : List (List Nat)} {done : List Nat} {ds : Array Nat} {ready : List Nat}

theorem lt_max (h : Counts n rows done ds ready) : ∀ i ∈ done, i < max n rows.length :=
  fun i hi => Nat.lt_of_lt_of_le (h.lt i hi) (Nat.le_max_left _ _)

theorem free_iff (h : Counts n rows done ds ready) {i : Nat} (hi : i < n) :
    ds.getD i 0 = 0 ↔ ∀ j, i ∈ rows.getD j [] → j ∈ done := by
  rw [← settled_eq_iff (Nat.le_max_right n rows.length) h.nodup h.lt_max i, ← h.owed i hi]
  omega

theorem cons_nodup {i : Nat} (h : Counts n rows done ds (i :: ready)) : (i :: done).Nodup :=
  List.nodup_cons.mpr ⟨((h.mem_ready i).mp List.mem_cons_self).2.1, h.nodup⟩

theorem cons_lt {i : Nat} (h : Counts n rows done ds (i :: ready)) : ∀ j ∈ i :: done, j < n := by
  intro j hj
  rcases List.mem_cons.mp hj with rfl | hj
  · exact ((h.mem_ready j).mp List.mem_cons_self).1
  · exact h.lt j hj

/-- A node that is ready lists no other more often than that one still waits. -/
theorem count_le {i x : Nat} (h : Counts n rows done ds (i :: ready)) (hx : x < n) :
    (rows.getD i []).count x ≤ ds.getD x 0 := by
  have hcons : settled rows (i :: done) x =
      (rows.getD i []).count x + settled rows done x := rfl
  have hx' := h.owed x hx
  rw [count_flatten_eq_add (Nat.le_max_right n rows.length) h.cons_nodup
    fun j hj => Nat.lt_of_lt_of_le (h.cons_lt j hj) (Nat.le_max_left _ _), hcons] at hx'
  omega

/-- The next visit. -/
theorem visit {i : Nat} (h : Counts n rows done ds (i :: ready)) :
    Counts n rows (i :: done) ((rows.getD i []).foldl release (ds, ready)).1
      ((rows.getD i []).foldl release (ds, ready)).2 := by
  obtain ⟨-, -, hzero⟩ := (h.mem_ready i).mp (by simp)
  obtain ⟨hnot, hr⟩ := List.nodup_cons.mp h.ready_nodup
  have hnodup := h.cons_nodup
  have hlt' := h.cons_lt
  have hcons (x : Nat) : settled rows (i :: done) x =
      (rows.getD i []).count x + settled rows done x := rfl
  have hrel := released (rows.getD i []) hr (fun x hx => h.count_le (h.size ▸ hx))
    fun x hx => ((h.mem_ready x).mp (.tail _ hx)).2.2
  refine ⟨hrel.size.trans h.size, hlt', hnodup, fun x hx => ?_,
    fun x hx => ?_, hrel.nodup, fun x => ?_⟩
  · have hc := hrel.counts x (h.size ▸ hlt' x hx)
    rcases List.mem_cons.mp hx with rfl | hx
    · omega
    · have := h.zero x hx
      omega
  · have hc := hrel.counts x (h.size ▸ hx)
    have hx' := h.owed x hx
    rw [hcons]
    omega
  · rw [hrel.mem_iff, List.mem_cons, h.size]
    constructor
    · rintro (hx | ⟨hx, hm, h0⟩)
      · obtain ⟨hxn, hxd, hx0⟩ := (h.mem_ready x).mp (.tail _ hx)
        have hc := hrel.counts x (h.size ▸ hxn)
        refine ⟨hxn, ?_, by omega⟩
        rintro (rfl | hx')
        · exact hnot hx
        · exact hxd hx'
      · refine ⟨hx, ?_, h0⟩
        have hc := hrel.counts x (h.size ▸ hx)
        have hpos := List.count_pos_iff.mpr hm
        rintro (rfl | hxd)
        · omega
        · have := h.zero x hxd
          omega
    · rintro ⟨hx, hxd, h0⟩
      by_cases hm : x ∈ rows.getD i []
      · exact .inr ⟨hx, hm, h0⟩
      · have hc := hrel.counts x (h.size ▸ hx)
        rw [List.count_eq_zero.mpr hm] at hc
        have hready := (h.mem_ready x).mpr ⟨hx, fun h => hxd (.inr h), by omega⟩
        exact .inl ((List.mem_cons.mp hready).resolve_left fun h => hxd (.inl h))

/-- The visits from here on. -/
theorem peels_orderFrom (h : Counts n rows done ds ready) {fuel : Nat}
    (hf : n ≤ fuel + done.length) :
    Peels n rows done (orderFrom rows.toArray fuel ds ready) := by
  induction fuel generalizing done ds ready with
  | zero =>
    refine .nil fun i hi hd => absurd ?_ hd
    have hperm : done.Perm (List.range n) :=
      (List.subperm_of_subset h.nodup fun j hj => List.mem_range.mpr (h.lt j hj)).perm_of_length_le
        (by simpa using hf)
    exact hperm.mem_iff.mpr (List.mem_range.mpr hi)
  | succ fuel ih =>
    cases ready with
    | nil =>
      refine .nil fun i hi hd => ?_
      have hne : ds.getD i 0 ≠ 0 := fun h0 => by
        have := (h.mem_ready i).mpr ⟨hi, hd, h0⟩
        cases this
      rw [ne_eq, h.free_iff hi] at hne
      simpa using hne
    | cons i ready =>
      obtain ⟨hlt, hd, h0⟩ := (h.mem_ready i).mp (by simp)
      have hrow : rows.toArray.getD i [] = rows.getD i [] := by
        simp [Array.getD_eq_getD_getElem?, List.getD_eq_getElem?_getD]
      rw [orderFrom, hrow]
      exact .cons hlt hd ((h.free_iff hlt).mp h0)
        (ih (h.visit) (by rw [List.length_cons]; omega))

end Counts

theorem foldl_modify (xs : List Nat) (ds : Array Nat) :
    (xs.foldl (fun ds i => ds.modify i (· + 1)) ds).size = ds.size ∧ ∀ x < ds.size,
      (xs.foldl (fun ds i => ds.modify i (· + 1)) ds).getD x 0 = ds.getD x 0 + xs.count x := by
  induction xs generalizing ds with
  | nil => exact ⟨rfl, fun _ _ => rfl⟩
  | cons i xs ih =>
    rw [List.foldl_cons]
    obtain ⟨hsize, hget⟩ := ih (ds.modify i (· + 1))
    rw [Array.size_modify] at hsize hget
    refine ⟨hsize, fun x hx => ?_⟩
    rw [hget x hx, Array.getD_eq_getD_getElem?, Array.getElem?_modify, Array.getD_eq_getD_getElem?,
      Array.getElem?_eq_getElem hx]
    by_cases hi : i = x
    · subst hi
      rw [if_pos rfl, List.count_cons_self]
      simp only [Option.map_some, Option.getD_some]
      omega
    · rw [if_neg hi, List.count_cons_of_ne hi]

/-- The counts and the ready nodes before the first visit. -/
theorem counts_degrees (n : Nat) (rows : List (List Nat)) : Counts n rows [] (degrees n rows)
    ((List.range n).filter fun i => (degrees n rows).getD i 0 = 0) := by
  obtain ⟨hsize, hget⟩ := foldl_modify rows.flatten (Array.replicate n 0)
  rw [Array.size_replicate] at hsize hget
  have hzero {i : Nat} (hi : i < n) : (degrees n rows).getD i 0 = rows.flatten.count i := by
    rw [degrees, hget i hi, Array.getD_eq_getD_getElem?, Array.getElem?_replicate, if_pos hi]
    exact Nat.zero_add _
  exact ⟨hsize, nofun, .nil, nofun, fun i hi => hzero hi, List.nodup_range.filter _,
    fun i => by simp [List.mem_filter]⟩

/-- Every visit comes after all that it waits for, and what is left over waits for something that is
left over as well. -/
theorem peels_order (n : Nat) (rows : List (List Nat)) : Peels n rows [] (order n rows) :=
  (counts_degrees n rows).peels_orderFrom (Nat.le_add_right _ _)

namespace Peels

variable {n : Nat} {rows : List (List Nat)} {done out : List Nat}

theorem lt (h : Peels n rows done out) : ∀ i ∈ out, i < n := by
  induction h with
  | nil => exact fun i hi => absurd hi List.not_mem_nil
  | cons hlt _ _ _ ih =>
    intro i hi
    rcases List.mem_cons.mp hi with rfl | hi
    · exact hlt
    · exact ih i hi

/-- What is left over waits for something that is left over. -/
theorem left_over (h : Peels n rows done out) : ∀ i < n, i ∉ done → i ∉ out →
    ∃ j, i ∈ rows.getD j [] ∧ j ∉ done ∧ j ∉ out := by
  induction h with
  | nil h =>
    intro i hi hd _
    obtain ⟨j, hj, hd⟩ := h i hi hd
    exact ⟨j, hj, hd, nofun⟩
  | cons _ _ _ _ ih =>
    intro i hi hd ho
    simp only [List.mem_cons, not_or] at ho
    obtain ⟨j, hj, hjd, hjo⟩ := ih i hi (by simp [ho.1, hd]) ho.2
    simp only [List.mem_cons, not_or] at hjd
    exact ⟨j, hj, hjd.2, by simp [hjd.1, hjo]⟩

end Peels

/-! ## What is left over -/

theorem foldl_mark (xs : List Nat) (marks : Array Bool) :
    (xs.foldl (fun done i => done.setIfInBounds i true) marks).size = marks.size ∧
    ∀ x < marks.size, (xs.foldl (fun done i => done.setIfInBounds i true) marks).getD x false =
      (marks.getD x false || decide (x ∈ xs)) := by
  induction xs generalizing marks with
  | nil => exact ⟨rfl, fun _ _ => by simp⟩
  | cons i xs ih =>
    rw [List.foldl_cons]
    obtain ⟨hsize, hget⟩ := ih (marks.setIfInBounds i true)
    rw [Array.size_setIfInBounds] at hsize hget
    refine ⟨hsize, fun x hx => ?_⟩
    rw [hget x hx, getD_setIfInBounds]
    by_cases hi : x = i
    · subst hi
      simp [hx]
    · simp [hi]

/-- The nodes that were not visited. -/
theorem Summary.missing_eq (n : Nat) (visited : List Nat) :
    Summary.missing ⟨n, visited⟩ = (List.range n).filter fun i => i ∉ visited := by
  obtain ⟨-, hget⟩ := foldl_mark visited (Array.replicate n false)
  rw [Array.size_replicate] at hget
  refine List.filter_congr fun i hi => ?_
  have hi := List.mem_range.mp hi
  rw [marks, hget i hi, Array.getD_eq_getD_getElem?, Array.getElem?_replicate, if_pos hi]
  simp

end Dataflow.Peel
