import Dataflow.Proofs.Graph.Streams
import Dataflow.Proofs.Graph.Topological

/-!
# Values run in program order

A function waits for the values that it captures, so the edges of a level lead both up and down. But
where every value that reads a function stands behind that function, and behind all functions that
can be reached from there, what leads from a value to another one leads up. Then the values of the
level run in the order in which they stand.

* `Segment.DeclaredFirst`: functions are declared before they are used;
* `Graph.InProgramOrder`: what follows for the visits of a level;
* **`Graph.inProgramOrder_of_build`**: so it is for every level of a graph that was built.
-/

namespace Dataflow

open Relation

namespace Segment

/-- Every value of a level that reads a function stands behind that function, and behind all functions
that can be reached from it. -/
def DeclaredFirst (qs : List Segment) (l : Graph) : Prop :=
  ∀ p args i, qs[p]? = some (value args i) → ∀ f < l.functionCount, l.Reads (index qs p) f →
    ∀ q params body, qs[q]? = some (function params body) → l.Reaches f (index qs q) → q < p

theorem values_take_le (qs : List Segment) {q p : Nat} (h : q ≤ p) :
    values (qs.take q) ≤ values (qs.take p) := by
  calc values (qs.take q)
      = values ((qs.take p).take q) := by rw [List.take_take, Nat.min_eq_left h]
    _ ≤ values ((qs.take p).take q) + values ((qs.take p).drop q) := Nat.le_add_right _ _
    _ = values (qs.take p) := by rw [← values_append, List.take_append_drop]

end Segment

namespace Graph

variable {l : Graph} {i j v : Nat}

theorem functionCount_le (l : Graph) : l.functionCount ≤ l.blocks.length :=
  (List.takeWhile_prefix _).length_le

theorem Reaches.isFunction {f k : Nat} (h : l.Reaches f k) (hf : f < l.functionCount) :
    k < l.functionCount := by
  rcases h.cases_tail with rfl | ⟨m, -, hm⟩
  · exact hf
  · exact hm.2.1

/-- A value that waits for a value stands behind it. -/
theorem WellBuilt.lt_of_value_waits (h : l.WellBuilt) (hv : l.functionCount ≤ v)
    (hi : l.functionCount ≤ i) (hw : i ∈ l.waiting v) : v < i := by
  rcases (h.waiting_iff.mp hw).2 with ⟨-, b, hb, id, hid, hm⟩ | ⟨-, hlow, -⟩ | ⟨hlow, -⟩
  · obtain ⟨k, -, hk, hlt⟩ := h.made hb hid hm.1 hm.2.1
    exact hm.unique hk ▸ hlt hi
  · omega
  · omega

/-- No function waits for a function. -/
theorem WellBuilt.not_function_waits (h : l.WellBuilt) (hj : j < l.functionCount)
    (hi : i < l.functionCount) : i ∉ l.waiting j := by
  intro hw
  rcases (h.waiting_iff.mp hw).2 with ⟨hlow, -⟩ | ⟨hlow, -⟩ | ⟨-, hlow, -⟩ <;> omega

/-- A value that waits for a function stands behind all values that the function waits for. -/
theorem WellBuilt.lt_of_function_between (h : l.WellBuilt) {qs : List Segment}
    (hl : Segment.Lays qs l) (hd : Segment.DeclaredFirst qs l)
    (hj : j < l.functionCount) (hi : l.functionCount ≤ i) (hvj : j ∈ l.waiting v)
    (hji : i ∈ l.waiting j) : v < i := by
  -- the function that reads the value in the end
  obtain ⟨f, hjf, hread⟩ : ∃ f, l.Reaches j f ∧ l.Reads f v := by
    rcases (h.waiting_iff.mp hvj).2 with ⟨hlow, -⟩ | ⟨hlow, -⟩ | ⟨-, -, hf⟩
    · omega
    · omega
    · exact hf
  -- the function that the later value reads in the first place
  obtain ⟨k, hk, hik, hkj⟩ : ∃ k < l.functionCount, l.Reads i k ∧ l.Reaches k j := by
    rcases (h.waiting_iff.mp hji).2 with ⟨-, hr⟩ | ⟨-, -, hf⟩ | ⟨hlow, -⟩
    · exact ⟨j, hj, hr, .refl⟩
    · exact hf
    · omega
  have hlt : i < l.blocks.length := by
    obtain ⟨b, hb, -⟩ := hik
    exact (List.getElem?_eq_some_iff.mp hb).1
  obtain ⟨p, args, ins, hp, hpn⟩ : ∃ p args ins, qs[p]? = some (.value args ins) ∧
      Segment.values (qs.take p) = i - l.functionCount :=
    Segment.exists_value (by have := hl.length; have := hl.functionCount; omega)
  obtain ⟨q, params, body, hq, hqn⟩ : ∃ q params body, qs[q]? = some (.function params body) ∧
      Segment.functions (qs.take q) = f :=
    Segment.exists_function (hl.functionCount ▸ hjf.isFunction hj)
  have hpi : Segment.index qs p = i := by
    rw [Segment.index_value hp, hpn, ← hl.functionCount]
    omega
  have hqf : Segment.index qs q = f := (Segment.index_function hq).trans hqn
  have hqp : q < p := hd p args ins hp k hk (hpi ▸ hik) q params body hq (hqf ▸ hkj.trans hjf)
  have hearly := hl.early hq v (hqf ▸ hread)
  have hmono := Segment.values_take_le qs (Nat.le_of_lt hqp)
  have hcount := hl.functionCount
  omega

/-- What the visits of a level are like if its functions are declared before they are used. -/
structure InProgramOrder (l : Graph) : Prop where
  acyclic : Peel.Acyclic l.blocks.length l.dependents
  /-- Whatever the visits do, they leave nothing out unless one of them fails. -/
  complete : ∀ {ε σ : Type} (f : Nat → EStateM ε σ Unit) (s : σ) (summary : Peel.Summary) (s' : σ),
    Peel.visit l.blocks.length l.dependents f s = .ok summary s' → summary.isComplete = true
  /-- Values are visited in the order in which they stand. -/
  increasing : (Peel.order l.blocks.length l.dependents).filter (l.functionCount ≤ ·) =
    List.range' l.functionCount (l.blocks.length - l.functionCount)
  /-- A function is visited before any value that reads it. -/
  function_first : ∀ f j, f < l.functionCount → l.functionCount ≤ j → l.Reads j f →
    ∀ a b, Peel.order l.blocks.length l.dependents = a ++ j :: b → f ∈ a

section Order

variable (h : l.WellBuilt)
  (hup : ∀ {v j i}, j < l.functionCount → l.functionCount ≤ i → j ∈ l.waiting v →
    i ∈ l.waiting j → v < i)
include h hup

/-- What leads from a value to another one leads up, also through functions. -/
theorem lt_of_transGen {x : Nat} (hv : l.functionCount ≤ v)
    (hx : TransGen (Peel.Edge l.blocks.length l.dependents) v x) :
    (l.functionCount ≤ x → v < x) ∧ (x < l.functionCount → ∀ i ∈ l.waiting x, v < i) := by
  -- an edge from a value, which is the first one or the last one
  have step {v x : Nat} (hv : l.functionCount ≤ v) (hx : x ∈ l.waiting v) :
      (l.functionCount ≤ x → v < x) ∧ (x < l.functionCount → ∀ i ∈ l.waiting x, v < i) := by
    refine ⟨fun hc => h.lt_of_value_waits hv hc hx, fun hc i hi => hup hc ?_ hx hi⟩
    exact Nat.not_lt.mp fun hlow => h.not_function_waits hc hlow hi
  induction hx with
  | single hx => exact step hv hx.2
  | @tail y x _ hyx ih =>
    by_cases hy : l.functionCount ≤ y
    · obtain ⟨hval, hfun⟩ := step hy hyx.2
      have hvy := ih.1 hy
      exact ⟨fun hc => hvy.trans (hval hc), fun hc i hi => hvy.trans (hfun hc i hi)⟩
    · have hy := Nat.not_le.mp hy
      refine ⟨fun _ => ih.2 hy x hyx.2, fun hc => absurd hyx.2 ?_⟩
      exact h.not_function_waits hy hc

theorem acyclic_of_upward : Peel.Acyclic l.blocks.length l.dependents := by
  intro i hi
  by_cases hc : l.functionCount ≤ i
  · exact Nat.lt_irrefl i ((lt_of_transGen h hup hc hi).1 hc)
  · have hlow := Nat.not_le.mp hc
    -- the first node after a function is a value, which leads back to the function
    obtain ⟨y, hiy, hyi⟩ := TransGen.head'_iff.mp hi
    have hy : l.functionCount ≤ y :=
      Nat.not_lt.mp fun hy => h.not_function_waits hlow hy hiy.2
    rcases reflTransGen_iff_eq_or_transGen.mp hyi with rfl | hyi
    · exact hc hy
    · exact Nat.lt_irrefl y ((lt_of_transGen h hup hy hyi).2 hlow y hiy.2)

/-- When a value is visited, all values before it have been. -/
theorem mem_of_lt {a b : List Nat}
    (ho : Peel.order l.blocks.length l.dependents = a ++ i :: b) (hi : l.functionCount ≤ i)
    (hv : l.functionCount ≤ v) (hlt : v < i) : v ∈ a := by
  obtain ⟨ds, ready, hr⟩ := Peel.reached_of_order ho
  have hlen : i < l.blocks.length :=
    Peel.lt_of_mem_order (show i ∈ Peel.order l.blocks.length l.dependents by simp [ho])
  induction v using Nat.strongRecOn with
  | ind v ih =>
    by_contra hnot
    -- the value waits for something that has not been visited, since it comes before the next node
    obtain ⟨k, hk, hka⟩ : ∃ k, v ∈ l.waiting k ∧ k ∉ a := by
      by_contra hall
      refine absurd (hr.le_of_free (j := v) (by omega) (by simpa using hnot) fun k hk => ?_)
        (Nat.not_le.mpr hlt)
      by_contra hka
      exact hall ⟨k, hk, by simpa using hka⟩
    by_cases hc : l.functionCount ≤ k
    · have hkv := h.lt_of_value_waits hc hv hk
      exact hka (ih k hkv hc (by omega))
    · -- a function, all of whose values have been visited, so that it comes next
      have hlow := Nat.not_le.mp hc
      have hle : i ≤ k := by
        refine hr.le_of_free (by omega) (by simpa using hka) fun w hw => ?_
        have hcw : l.functionCount ≤ w := Nat.not_lt.mp fun hw' => h.not_function_waits hw' hlow hw
        have hwv := hup hlow hv hw hk
        simpa using ih w hwv hcw (by omega)
      omega

/-- Of two values the lower one is visited first. -/
theorem pairwise_order : (Peel.order l.blocks.length l.dependents).Pairwise
    fun i j => l.functionCount ≤ i → l.functionCount ≤ j → i < j := by
  have hnodup := Peel.nodup_order l.blocks.length l.dependents
  have key (b : List Nat) : ∀ a, Peel.order l.blocks.length l.dependents = a ++ b →
      b.Pairwise fun i j => l.functionCount ≤ i → l.functionCount ≤ j → i < j := by
    induction b with
    | nil => exact fun _ _ => .nil
    | cons i b ih =>
      intro a ho
      refine .cons (fun j hj hi hj' => ?_) (ih (a ++ [i]) (by simpa using ho))
      rw [ho, List.nodup_append, List.nodup_cons] at hnodup
      obtain ⟨-, ⟨hib, -⟩, hdisjoint⟩ := hnodup
      rcases Nat.lt_trichotomy i j with hlt | rfl | hlt
      · exact hlt
      · exact absurd hj hib
      · have hja : j ∈ a := mem_of_lt h hup ho hi hj' hlt
        exact absurd rfl (hdisjoint j hja j (List.mem_cons_of_mem _ hj))
  exact key _ [] rfl

/-- The order of the visits of a level whose edges between values lead up. -/
theorem inProgramOrder_of_upward : l.InProgramOrder := by
  have hrows (j : Nat) (hj : l.dependents.getD j [] ≠ []) : j < l.blocks.length := by
    by_contra hge
    exact hj (List.getD_eq_default _ _ (by rw [h.dependents_length]; omega))
  have hacyclic := acyclic_of_upward h hup
  have hall := (Peel.forall_mem_order_iff hrows).mpr hacyclic
  refine ⟨hacyclic, fun f s summary s' hvisit => ?_, ?_, fun f j hf hj hr a b ho => ?_⟩
  · rcases Peel.visit_cases _ l.dependents f s with ⟨s₁, -, he⟩ | ⟨_, _, _, _, _, _, -, -, -, he⟩
    · rw [he] at hvisit
      cases hvisit
      exact (Peel.Summary.isComplete_iff _ _).mpr hall
    · rw [he] at hvisit
      cases hvisit
  · -- both lists are sorted and hold all values
    refine List.Perm.eq_of_pairwise (fun x y _ _ hxy hyx => absurd hxy (Nat.lt_asymm hyx)) ?_
      List.pairwise_lt_range' ?_
    · refine ((pairwise_order h hup).filter _).imp_of_mem fun hx hy hlt => ?_
      rw [List.mem_filter, decide_eq_true_iff] at hx hy
      exact hlt hx.2 hy.2
    · refine (List.perm_ext_iff_of_nodup ((Peel.nodup_order _ _).filter _)
        List.nodup_range').mpr fun x => ?_
      rw [List.mem_filter, decide_eq_true_iff, List.mem_range'_1]
      have hle := l.functionCount_le
      refine ⟨fun ⟨hx, hc⟩ => ⟨hc, ?_⟩, fun ⟨hc, hx⟩ => ⟨hall x (by omega), hc⟩⟩
      have := Peel.lt_of_mem_order hx
      omega
  · refine Peel.forward_order _ _ a j b ho f ⟨?_, h.waiting_iff.mpr ⟨by omega, .inl ⟨hj, hr⟩⟩⟩
    obtain ⟨b, hb, -⟩ := hr
    exact (List.getElem?_eq_some_iff.mp hb).1

end Order

/-- **Values run in program order if functions are declared before they are used.** Every level of a
graph that was built comes from the segments of one function body; where these declare functions
first, the level has no cycle, its values are visited in the order in which they stand, and each
function before all values that read it. -/
theorem inProgramOrder_of_build {is : List Instruction} {g : Graph} (h : Graph.build is = .ok g) :
    Segment.codes (Segment.parse is) = is ∧
    ∀ {m : Nat} {l : Graph}, g.levels[m]? = some l →
      ∃ qs, (Segment.levels (Segment.parse is))[m]? = some qs ∧ Segment.Lays qs l ∧
        (Segment.DeclaredFirst qs l → l.InProgramOrder) := by
  refine ⟨(lays_of_build h).1, fun {m l} hm => ?_⟩
  have hwell : l.WellBuilt :=
    ((built_of_build h).1.of_mem_levels (List.mem_of_getElem? hm)).level
  obtain ⟨qs, hqs, hl⟩ := exists_lays h hm
  exact ⟨qs, hqs, hl, fun hd => inProgramOrder_of_upward hwell
    fun hj hi hvj hji => hwell.lt_of_function_between hl hd hj hi hvj hji⟩

/-- A function that reads a value stands between that value and its call. -/
theorem inProgramOrder_of_build_capture : ∃ g : Graph,
    Graph.build [.constant 0, .enter 0, .copy 1, .leave, .call 0] = .ok g ∧
      Peel.order g.blocks.length g.dependents = [1, 0, 2] ∧ g.InProgramOrder := by
  have h : Graph.build [.constant 0, .enter 0, .copy 1, .leave, .call 0] =
      .ok ⟨0, 0, [.function 0 ⟨2, 0, [.steps 2 [.copy 1]], [[]]⟩, .steps 1 [.constant 0],
        .steps 2 [.call 0]], [[2], [0], []]⟩ := by
    cbv
  refine ⟨_, h, by decide, ?_⟩
  obtain ⟨qs, hqs, -, hl⟩ := (inProgramOrder_of_build h).2 (m := 0) (by rw [levels_eq]; rfl)
  cases hqs
  refine hl fun p args i hp f hf hr q params body hq _ => ?_
  have hparse : Segment.parse [.constant 0, .enter 0, .copy 1, .leave, .call 0] =
      [.value [] (.constant 0), .function 0 [.value [] (.copy 1)], .value [] (.call 0)] := rfl
  rw [hparse] at hp hr hq
  have hq : q = 1 := by
    rcases q with _ | _ | _ | q
    · cases hq
    · rfl
    · cases hq
    · simp at hq
  rcases p with _ | _ | p
  · -- the constant reads nothing
    obtain ⟨b, hb, id, hid, -⟩ := hr
    cases hb
    cases hid
  · cases hp
  · omega

end Graph

end Dataflow
