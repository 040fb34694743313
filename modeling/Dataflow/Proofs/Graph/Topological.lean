import Dataflow.Proofs.Graph.Peel

/-!
# Visits as a topological pass

Visits follow the lowest topological order as far as there is one: they leave out exactly the nodes
on a cycle and those behind one.

* `Peel.Edge`, `Peel.Blocked`: what waits for what, and what waits for a cycle;
* `Peel.Topological`: an order of all nodes in which edges lead forward;
* `Peel.Reached`: the states that the loop of visits goes through;
* `Peel.Exact`: what holds of the visits of a graph;
* `Peel.Passes`: visits that succeed one after the other;
* **`Peel.exact_visit`**: the visits are exact, no count is taken below zero, and what a visit does
  decides only how far they go.
-/

namespace Dataflow.Peel

open Relation

variable {n : Nat} {rows : List (List Nat)}

/-- Node `j` of `n` waits for node `i`. -/
def Edge (n : Nat) (rows : List (List Nat)) (i j : Nat) : Prop := j < n ∧ j ∈ rows.getD i []

/-- No node waits for itself, be it through others. -/
def Acyclic (n : Nat) (rows : List (List Nat)) : Prop := ∀ i, ¬ TransGen (Edge n rows) i i

/-- A node that is on a cycle or behind one. -/
def Blocked (n : Nat) (rows : List (List Nat)) (i : Nat) : Prop :=
  ∃ c, TransGen (Edge n rows) c c ∧ ReflTransGen (Edge n rows) c i

/-- Every node comes after all that it waits for. -/
def Forward (n : Nat) (rows : List (List Nat)) (visits : List Nat) : Prop :=
  ∀ a i b, visits = a ++ i :: b → ∀ j, Edge n rows j i → j ∈ a

/-- An order of all nodes in which each comes after all that it waits for. -/
structure Topological (n : Nat) (rows : List (List Nat)) (visits : List Nat) : Prop where
  perm : visits.Perm (List.range n)
  forward : Forward n rows visits

/-! ## The loop -/

/-- The counts and the ready nodes after the visits of `done`, the latest of them first. -/
inductive Reached (n : Nat) (rows : List (List Nat)) : List Nat → Array Nat → List Nat → Prop where
  | start : Reached n rows [] (degrees n rows)
    ((List.range n).filter fun i => (degrees n rows).getD i 0 = 0)
  | visit {done : List Nat} {ds : Array Nat} {i : Nat} {ready : List Nat}
    (h : Reached n rows done ds (i :: ready)) :
    Reached n rows (i :: done) ((rows.getD i []).foldl release (ds, ready)).1
      ((rows.getD i []).foldl release (ds, ready)).2

theorem pairwise_insert {xs : List Nat} (h : xs.Pairwise (· ≤ ·)) (i : Nat) :
    (insert i xs).Pairwise (· ≤ ·) := by
  induction xs with
  | nil => exact List.pairwise_singleton _ i
  | cons x xs ih =>
    obtain ⟨hx, hxs⟩ := List.pairwise_cons.mp h
    rw [insert]
    split
    case isTrue hle =>
      refine List.pairwise_cons.mpr ⟨fun y hy => ?_, h⟩
      rcases List.mem_cons.mp hy with rfl | hy
      · exact hle
      · exact Nat.le_trans hle (hx y hy)
    case isFalse hle =>
      refine List.pairwise_cons.mpr ⟨fun y hy => ?_, ih hxs⟩
      rcases List.mem_cons.mp ((insert_perm i xs).mem_iff.mp hy) with rfl | hy
      · omega
      · exact hx y hy

theorem pairwise_release {ds : Array Nat} {ready : List Nat} (h : ready.Pairwise (· ≤ ·)) (i : Nat) :
    (release (ds, ready) i).2.Pairwise (· ≤ ·) := by
  rw [release]
  dsimp only
  split
  · exact h
  · split
    · exact pairwise_insert h i
    · exact h

theorem pairwise_foldl_release (xs : List Nat) {s : Array Nat × List Nat}
    (h : s.2.Pairwise (· ≤ ·)) : (xs.foldl release s).2.Pairwise (· ≤ ·) := by
  induction xs generalizing s with
  | nil => exact h
  | cons x xs ih => exact ih (pairwise_release h x)

namespace Reached

variable {done : List Nat} {ds : Array Nat} {i : Nat} {ready : List Nat}

theorem counts (h : Reached n rows done ds ready) : Counts n rows done ds ready := by
  induction h with
  | start => exact counts_degrees n rows
  | visit _ ih => exact ih.visit

/-- The ready nodes are sorted. -/
theorem pairwise (h : Reached n rows done ds ready) : ready.Pairwise (· ≤ ·) := by
  induction h with
  | start => exact (List.pairwise_lt_range.imp Nat.le_of_lt).filter _
  | visit _ ih => exact pairwise_foldl_release _ (List.pairwise_cons.mp ih).2

/-- The next node is the lowest of those that can be visited. -/
theorem le_of_free (h : Reached n rows done ds (i :: ready)) {j : Nat} (hj : j < n) (hd : j ∉ done)
    (hfree : ∀ k, j ∈ rows.getD k [] → k ∈ done) : i ≤ j := by
  have hready : j ∈ i :: ready :=
    (h.counts.mem_ready j).mpr ⟨hj, hd, (h.counts.free_iff hj).mpr hfree⟩
  rcases List.mem_cons.mp hready with rfl | hm
  · exact Nat.le_refl j
  · exact (List.pairwise_cons.mp h.pairwise).1 j hm

/-- No count is taken below zero. -/
theorem pos_of_release (h : Reached n rows done ds (i :: ready)) {a b : List Nat} {x : Nat}
    (hrow : rows.getD i [] = a ++ x :: b) (hx : x < n) :
    0 < (a.foldl release (ds, ready)).1.getD x 0 := by
  have hle (y : Nat) (hy : y < n) : a.count y + (x :: b).count y ≤ ds.getD y 0 := by
    rw [← List.count_append, ← hrow]
    exact h.counts.count_le hy
  have hrel := released a (List.nodup_cons.mp h.counts.ready_nodup).2
    (fun y hy => Nat.le_trans (Nat.le_add_right _ _) (hle y (h.counts.size ▸ hy)))
    fun y hy => ((h.counts.mem_ready y).mp (.tail _ hy)).2.2
  have hc := hrel.counts x (h.counts.size ▸ hx)
  have hxle := hle x hx
  rw [List.count_cons_self] at hxle
  omega

/-- What is left of the order of visits. -/
theorem order_eq (h : Reached n rows done ds ready) :
    order n rows = done.reverse ++ orderFrom rows.toArray (n - done.length) ds ready := by
  induction h with
  | start => rfl
  | @visit done ds i ready h ih =>
    have hlen : done.length + 1 ≤ n := by
      have hsub := List.subperm_of_subset h.counts.cons_nodup
        fun j hj => List.mem_range.mpr (h.counts.cons_lt j hj)
      simpa using hsub.length_le
    have hrow : rows.toArray.getD i [] = rows.getD i [] := by
      simp [Array.getD_eq_getD_getElem?, List.getD_eq_getElem?_getD]
    obtain ⟨k, hk⟩ : ∃ k, n - done.length = k + 1 := ⟨n - done.length - 1, by omega⟩
    have hk' : n - (i :: done).length = k := by
      rw [List.length_cons]
      omega
    rw [ih, hk, hk', orderFrom, hrow, List.reverse_cons, List.append_assoc]
    rfl

/-- The node that is visited next is the first of the ready ones. -/
theorem ready_eq {a b : List Nat} (h : Reached n rows a.reverse ds ready)
    (ho : order n rows = a ++ i :: b) : ∃ ready', ready = i :: ready' := by
  have he := h.order_eq
  rw [List.reverse_reverse, ho, List.append_cancel_left_eq] at he
  revert he
  cases n - a.reverse.length with
  | zero => nofun
  | succ k =>
    cases ready with
    | nil => nofun
    | cons j ready =>
      intro he
      rw [orderFrom] at he
      exact ⟨ready, by rw [(List.cons.inj he).1]⟩

end Reached

/-- Before each visit the loop was in a state in which that node comes next. -/
theorem reached_of_order {a b : List Nat} {i : Nat} (h : order n rows = a ++ i :: b) :
    ∃ ds ready, Reached n rows a.reverse ds (i :: ready) := by
  induction a using List.reverseRecOn generalizing i b with
  | nil =>
    obtain ⟨ready, hr⟩ := Reached.start.ready_eq (a := []) h
    exact ⟨_, ready, hr ▸ Reached.start⟩
  | append_singleton a x ih =>
    obtain ⟨ds, ready, hr⟩ := ih (b := i :: b) (by rw [h, List.append_assoc]; rfl)
    have hv := hr.visit
    rw [← List.reverse_concat] at hv
    obtain ⟨ready', hr'⟩ := hv.ready_eq h
    exact ⟨_, ready', hr' ▸ hv⟩

/-! ## The order of visits -/

theorem nodup_order (n : Nat) (rows : List (List Nat)) : (order n rows).Nodup := by
  rcases List.eq_nil_or_concat (order n rows) with h | ⟨a, i, h⟩
  · rw [h]
    exact List.nodup_nil
  · rw [List.concat_eq_append] at h
    obtain ⟨ds, ready, hr⟩ := reached_of_order h
    rw [h, ← List.nodup_reverse, List.reverse_concat]
    exact hr.counts.cons_nodup

theorem lt_of_mem_order {i : Nat} (h : i ∈ order n rows) : i < n := (peels_order n rows).lt i h

theorem forward_order (n : Nat) (rows : List (List Nat)) : Forward n rows (order n rows) := by
  intro a i b h j hj
  obtain ⟨ds, ready, hr⟩ := reached_of_order h
  obtain ⟨hi, -, h0⟩ := (hr.counts.mem_ready i).mp List.mem_cons_self
  exact List.mem_reverse.mp ((hr.counts.free_iff hi).mp h0 j hj.2)

/-- No order of all nodes that respects the edges is lower than that of the visits. -/
theorem eq_or_lex_order {o : List Nat} (ho : Topological n rows o) :
    o = order n rows ∨ List.Lex (· < ·) (order n rows) o := by
  -- what is left of the visits is compared with what is left of the other order
  have key (b : List Nat) : ∀ a o, order n rows = a ++ b → Topological n rows (a ++ o) →
      o = b ∨ List.Lex (· < ·) b o := by
    induction b with
    | nil =>
      intro a o _ _
      cases o with
      | nil => exact .inl rfl
      | cons j o => exact .inr .nil
    | cons i b ih =>
      intro a o h ho
      obtain ⟨ds, ready, hr⟩ := reached_of_order h
      obtain ⟨hi, hid, -⟩ := (hr.counts.mem_ready i).mp List.mem_cons_self
      rw [List.mem_reverse] at hid
      cases o with
      | nil =>
        rw [List.append_nil] at ho
        exact absurd (ho.perm.mem_iff.mpr (List.mem_range.mpr hi)) hid
      | cons j o =>
        have hj : j < n := List.mem_range.mp (ho.perm.mem_iff.mp (by simp))
        have hja : j ∉ a := by
          have hnodup : (a ++ j :: o).Nodup := ho.perm.nodup_iff.mpr List.nodup_range
          exact fun hm => (List.disjoint_of_nodup_append hnodup) hm List.mem_cons_self
        have hle : i ≤ j := by
          refine hr.le_of_free hj (by rwa [List.mem_reverse]) fun k hk => ?_
          exact List.mem_reverse.mpr (ho.forward a j o rfl k ⟨hj, hk⟩)
        rcases Nat.lt_or_eq_of_le hle with hlt | rfl
        · exact .inr (.rel hlt)
        · have hrest := ih (a ++ [i]) o (by rw [h, List.append_assoc]; rfl) (by
            rwa [List.append_assoc])
          rcases hrest with rfl | hlex
          · exact .inl rfl
          · exact .inr (.cons hlex)
  exact key (order n rows) [] o rfl ho

/-! ## Cycles -/

theorem Edge.mem_order {i j : Nat} (h : Edge n rows i j) (hj : j ∈ order n rows) :
    i ∈ order n rows ∧ (order n rows).idxOf i < (order n rows).idxOf j := by
  obtain ⟨a, b, hab⟩ := List.append_of_mem hj
  have hi : i ∈ a := forward_order n rows a j b hab i h
  have hja : j ∉ a := by
    have hnodup := nodup_order n rows
    rw [hab] at hnodup
    exact fun hm => (List.disjoint_of_nodup_append hnodup) hm List.mem_cons_self
  rw [hab, List.idxOf_append_of_mem hi, List.idxOf_append_of_notMem hja, List.idxOf_cons_self]
  exact ⟨List.mem_append_left _ hi, Nat.lt_of_lt_of_le (List.idxOf_lt_length_of_mem hi) (Nat.le_add_right _ _)⟩

/-- What a visited node waits for has been visited before. -/
theorem mem_order_of_transGen {i j : Nat} (h : TransGen (Edge n rows) i j) (hj : j ∈ order n rows) :
    i ∈ order n rows ∧ (order n rows).idxOf i < (order n rows).idxOf j := by
  induction h with
  | single h => exact h.mem_order hj
  | tail _ h ih =>
    obtain ⟨hm, hlt⟩ := h.mem_order hj
    obtain ⟨hi, hlt'⟩ := ih hm
    exact ⟨hi, Nat.lt_trans hlt' hlt⟩

theorem not_blocked_of_mem {i : Nat} (h : i ∈ order n rows) : ¬ Blocked n rows i := by
  rintro ⟨c, hc, hi⟩
  have hmem : c ∈ order n rows := by
    rcases reflTransGen_iff_eq_or_transGen.mp hi with rfl | hi
    · exact h
    · exact (mem_order_of_transGen hi h).1
  exact Nat.lt_irrefl _ (mem_order_of_transGen hc hmem).2

/-- Where each node of a finite set waits for another one of them, a cycle is behind each. -/
theorem blocked_of_forall_edge {P : Nat → Prop} (hP : ∀ i, P i → i < n)
    (hstep : ∀ i, P i → ∃ j, P j ∧ Edge n rows j i) {i : Nat} (hi : P i) : Blocked n rows i := by
  choose back hback using fun x : { i // P i } => hstep x.1 x.2
  let prev (x : { i // P i }) : { i // P i } := ⟨back x, (hback x).1⟩
  have hprev (x : { i // P i }) : Edge n rows (prev x).1 x.1 := (hback x).2
  have walk (x : { i // P i }) (k : Nat) : ReflTransGen (Edge n rows) (prev^[k] x).1 x.1 := by
    induction k with
    | zero => exact .refl
    | succ k ih =>
      rw [Function.iterate_succ_apply']
      exact ih.head (hprev _)
  -- walking back long enough comes to one node twice
  have hfinite : Finite { i // P i } :=
    Finite.of_injective (fun x => (⟨x.1, hP x.1 x.2⟩ : Fin n)) fun x y h => by
      simpa [Subtype.ext_iff] using h
  obtain ⟨k, m, hne, heq⟩ := Finite.exists_ne_map_eq_of_infinite fun k : Nat => prev^[k] ⟨i, hi⟩
  wlog hlt : k < m generalizing k m
  · exact this m k hne.symm heq.symm (by omega)
  obtain ⟨d, rfl⟩ : ∃ d, m = d + 1 + k := ⟨m - k - 1, by omega⟩
  refine ⟨(prev^[k] ⟨i, hi⟩).1, ?_, walk ⟨i, hi⟩ k⟩
  have hcycle := walk (prev^[k] ⟨i, hi⟩) d
  rw [Function.iterate_add_apply, Function.iterate_succ_apply'] at heq
  have hfirst := hprev (prev^[d] (prev^[k] ⟨i, hi⟩))
  rw [← heq] at hfirst
  exact .head' hfirst hcycle

/-- The nodes that are visited. -/
theorem mem_order_iff (hrows : ∀ j, rows.getD j [] ≠ [] → j < n) {i : Nat} :
    i ∈ order n rows ↔ i < n ∧ ¬ Blocked n rows i := by
  refine ⟨fun h => ⟨lt_of_mem_order h, not_blocked_of_mem h⟩, fun ⟨hi, hb⟩ => ?_⟩
  by_contra hnot
  refine hb (blocked_of_forall_edge (P := fun i => i < n ∧ i ∉ order n rows) (fun i h => h.1)
    (fun i ⟨hi, hm⟩ => ?_) ⟨hi, hnot⟩)
  obtain ⟨j, hj, -, hjm⟩ := (peels_order n rows).left_over i hi List.not_mem_nil hm
  exact ⟨j, ⟨hrows j (List.ne_nil_of_mem hj), hjm⟩, hi, hj⟩

/-! ## Summaries -/

theorem Summary.includes_eq (n : Nat) (visited : List Nat) (i : Nat) :
    Summary.includes ⟨n, visited⟩ i = decide (i < n ∧ i ∈ visited) := by
  obtain ⟨hsize, hget⟩ := foldl_mark visited (Array.replicate n false)
  rw [Array.size_replicate] at hsize hget
  rw [includes, marks]
  by_cases hi : i < n
  · rw [hget i hi, Array.getD_eq_getD_getElem?, Array.getElem?_replicate, if_pos hi]
    simp [hi]
  · rw [Array.getD_eq_getD_getElem?, Array.getElem?_eq_none (hsize.trans_le (Nat.not_lt.mp hi))]
    simp [hi]

theorem Summary.isComplete_iff (n : Nat) (visited : List Nat) :
    Summary.isComplete ⟨n, visited⟩ = true ↔ ∀ i < n, i ∈ visited := by
  rw [isComplete, missing_eq, List.isEmpty_iff, List.filter_eq_nil_iff]
  simp

/-- All nodes are visited exactly if there is no cycle. -/
theorem forall_mem_order_iff (hrows : ∀ j, rows.getD j [] ≠ [] → j < n) :
    (∀ i < n, i ∈ order n rows) ↔ Acyclic n rows := by
  constructor
  · intro h i hi
    have hlt : i < n := by
      obtain ⟨j, -, hj⟩ := TransGen.tail'_iff.mp hi
      exact hj.1
    exact not_blocked_of_mem (h i hlt) ⟨i, hi, .refl⟩
  · intro h i hi
    exact (mem_order_iff hrows).mpr ⟨hi, fun ⟨c, hc, _⟩ => h c hc⟩

/-- What holds of the visits of a graph. -/
structure Exact (n : Nat) (rows : List (List Nat)) (visits : List Nat) : Prop where
  /-- No node is visited twice. -/
  nodup : visits.Nodup
  /-- A node is visited after all that it waits for. -/
  forward : Forward n rows visits
  /-- The nodes that are visited are those that are neither on a cycle nor behind one. -/
  includes_iff : ∀ i, Summary.includes ⟨n, visits⟩ i = true ↔ i < n ∧ ¬ Blocked n rows i
  isComplete_iff : Summary.isComplete ⟨n, visits⟩ = true ↔ Acyclic n rows
  topological : Acyclic n rows → Topological n rows visits
  /-- Of all orders that respect the edges this is the lowest. -/
  lowest : ∀ o, Topological n rows o → o = visits ∨ List.Lex (· < ·) visits o

theorem exact_order (hrows : ∀ j, rows.getD j [] ≠ [] → j < n) : Exact n rows (order n rows) where
  nodup := nodup_order n rows
  forward := forward_order n rows
  includes_iff i := by
    rw [Summary.includes_eq, decide_eq_true_iff, mem_order_iff hrows]
    exact ⟨And.right, fun h => ⟨h.1, h⟩⟩
  isComplete_iff := (Summary.isComplete_iff _ _).trans (forall_mem_order_iff hrows)
  topological hacyclic := by
    refine ⟨?_, forward_order n rows⟩
    refine (List.perm_ext_iff_of_nodup (nodup_order n rows) List.nodup_range).mpr fun i => ?_
    rw [List.mem_range]
    exact ⟨lt_of_mem_order, (forall_mem_order_iff hrows).mpr hacyclic i⟩
  lowest _ := eq_or_lex_order

/-! ## Visits that fail -/

section Visits

variable {ε σ : Type}

/-- Visits that succeed one after the other. -/
inductive Passes (f : Nat → EStateM ε σ Unit) : List Nat → σ → σ → Prop where
  | nil (s : σ) : Passes f [] s s
  | cons {i : Nat} {is : List Nat} {s s₁ s' : σ} (hi : f i s = .ok () s₁)
    (h : Passes f is s₁ s') : Passes f (i :: is) s s'

/-- Visits go on until one of them fails. -/
theorem forM_cases (f : Nat → EStateM ε σ Unit) (is : List Nat) (s : σ) :
    (∃ s', Passes f is s s' ∧ is.forM f s = .ok () s') ∨
      ∃ a i b s₁ e s', is = a ++ i :: b ∧ Passes f a s s₁ ∧ f i s₁ = .error e s' ∧
        is.forM f s = .error e s' := by
  induction is generalizing s with
  | nil => exact .inl ⟨s, .nil s, rfl⟩
  | cons i is ih =>
    have hbind : (i :: is).forM f s = (f i >>= fun _ => is.forM f) s := rfl
    cases hi : f i s with
    | error e s' =>
      refine .inr ⟨[], i, is, s, e, s', rfl, .nil s, hi, ?_⟩
      rw [hbind]
      show EStateM.bind _ _ s = _
      rw [EStateM.bind, hi]
    | ok u s₁ =>
      have hrest : (i :: is).forM f s = is.forM f s₁ := by
        rw [hbind]
        show EStateM.bind _ _ s = _
        rw [EStateM.bind, hi]
      rcases ih s₁ with ⟨s', hp, he⟩ | ⟨a, j, b, s₂, e, s', rfl, hp, hj, he⟩
      · exact .inl ⟨s', .cons hi hp, hrest.trans he⟩
      · exact .inr ⟨i :: a, j, b, s₂, e, s', rfl, .cons hi hp, hj, hrest.trans he⟩

theorem visit_cases (n : Nat) (rows : List (List Nat)) (f : Nat → EStateM ε σ Unit) (s : σ) :
    (∃ s', Passes f (order n rows) s s' ∧ visit n rows f s = .ok ⟨n, order n rows⟩ s') ∨
      ∃ a i b s₁ e s', order n rows = a ++ i :: b ∧ Passes f a s s₁ ∧ f i s₁ = .error e s' ∧
        visit n rows f s = .error e s' := by
  have hvisit : visit n rows f s =
      EStateM.bind ((order n rows).forM f) (fun _ => pure ⟨n, order n rows⟩) s := rfl
  rw [hvisit, EStateM.bind]
  rcases forM_cases f (order n rows) s with ⟨s', hp, he⟩ | ⟨a, i, b, s₁, e, s', ho, hp, hi, he⟩
  · rw [he]
    exact .inl ⟨s', hp, rfl⟩
  · rw [he]
    exact .inr ⟨a, i, b, s₁, e, s', ho, hp, hi, rfl⟩

end Visits

/-- No count is taken below zero while a visited node releases those that wait for it. -/
def Sufficient (n : Nat) (row : List Nat) (s : Array Nat × List Nat) : Prop :=
  ∀ a x b, row = a ++ x :: b → x < n → 0 < (a.foldl release s).1.getD x 0

/-- **Visits are an exact topological pass**: they follow the lowest topological order, up to the
first visit that fails. -/
theorem exact_visit (n : Nat) (rows : List (List Nat)) (hrows : ∀ j, rows.getD j [] ≠ [] → j < n) :
    Exact n rows (order n rows) ∧
    (∀ done ds i ready, Reached n rows done ds (i :: ready) →
      Sufficient n (rows.getD i []) (ds, ready)) ∧
    ∀ {ε σ : Type} (f : Nat → EStateM ε σ Unit) (s : σ),
      (∃ s', Passes f (order n rows) s s' ∧ visit n rows f s = .ok ⟨n, order n rows⟩ s') ∨
      ∃ a i b s₁ e s', order n rows = a ++ i :: b ∧ Passes f a s s₁ ∧ f i s₁ = .error e s' ∧
        visit n rows f s = .error e s' := by
  exact ⟨exact_order hrows, fun done ds i ready h a x b => h.pos_of_release, visit_cases n rows⟩

/-- One node waits twice for another, which also lists a node that does not exist. -/
theorem exact_visit_twice : (∀ j, [[3, 3, 9], [0], [], [2]].getD j [] ≠ [] → j < 4) ∧
    order 4 [[3, 3, 9], [0], [], [2]] = [1, 0, 3, 2] ∧
    Exact 4 [[3, 3, 9], [0], [], [2]] [1, 0, 3, 2] := by
  have hrows : ∀ j, [[3, 3, 9], [0], [], [2]].getD j [] ≠ [] → j < 4 := by
    intro j hj
    by_contra hge
    exact hj (List.getD_eq_default _ _ (Nat.not_lt.mp hge))
  have horder : order 4 [[3, 3, 9], [0], [], [2]] = [1, 0, 3, 2] := by decide
  exact ⟨hrows, horder, horder ▸ (exact_visit 4 _ hrows).1⟩

end Dataflow.Peel
