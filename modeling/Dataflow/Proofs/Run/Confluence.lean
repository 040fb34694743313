import Dataflow.Proofs.Run.Choice

/-!
# All orders come to the same value

If some interleaved run comes to a value, every other one can be continued so that it comes to the
same value in the same number of steps, as long as no function of the host goes on after an error. The
two runs give out their numbers in different orders, so
the values and machines are the same up to a renaming of what is new.

The proof is by random descent: a step that could have been taken first can be taken first, and what
follows is a step shorter.

* `Work.Takes`: an interleaved run of a given length;
* `State.Tame`: the invariant of runs in which every error is handed on;
* `State.Tame.diamond`: two steps in either order;
* `Work.Takes.renamed`: runs under other numbers;
* `Work.Takes.descend`: the first step can be any step;
* **`Work.Takes.complete`**: every run can be continued to the same value.
-/

namespace Dataflow

open Run

/-- An interleaved run of a given length. -/
inductive Work.Takes (h : Host) (quiet : Bool) : Nat → Work × Machine → Work × Machine → Prop where
  | refl (c : Work × Machine) : Work.Takes h quiet 0 c c
  | head {n : Nat} {c c' c'' : Work × Machine} (hs : Work.Step h quiet c c')
    (ht : Work.Takes h quiet n c' c'') : Work.Takes h quiet (n + 1) c c''

namespace Work.Takes

variable {h : Host} {quiet : Bool} {n : Nat} {c c' : Work × Machine}

theorem steps (ht : Work.Takes h quiet n c c') : Work.Steps h quiet c c' := by
  induction ht with
  | refl => exact .refl
  | head hs _ ih => exact .head hs ih

/-- There is nothing to do for what has come to a value. -/
theorem not_offers {w : Work} {m m' : Machine} {depth : Nat} {v : Value}
    (ht : Work.Takes h quiet 0 (w, m) (.script depth (.done v), m')) {α : Type} {op : Op α}
    {k : Except RunError α → Work} : ¬ Work.Offers h quiet w op k := by
  cases ht
  exact Work.not_offers_done

end Work.Takes

/-! ## Steps that do not fail -/

/-- All graphs. -/
def Graph.Any (_ : Graph) : Prop := True

theorem Graph.inherited_any : Inherited Graph.Any := fun _ _ => trivial

/-- What holds at any time of a run in which every error is handed on. -/
structure State.Tame (h : Host) (sites : Nat → Site) (c : Work × Machine) : Prop
    extends State.Fine Graph.Any h sites c where
  strict_host : h.Strict
  strict : c.1.Strict

namespace State.Tame

variable {h : Host} {quiet : Bool} {sites : Nat → Site} {w : Work} {m m' : Machine} {α : Type}
  {op : Op α} {k : Except RunError α → Work} {r : Except RunError α}

/-- What comes to a value is not lost. -/
theorem not_hopeless {c : Work × Machine} (hc : State.Tame h sites c) {n depth : Nat} {v : Value}
    (ht : Work.Takes h quiet n c (.script depth (.done v), m)) : ¬ c.1.Hopeless c.2 :=
  fun hl => ht.steps.not_done_of_lost hc.strict_host hc.strict hl depth v rfl

theorem not_hopeless_of_step {c c' : Work × Machine} (hc : State.Tame h sites c)
    (hs : Work.Step h quiet c c') {n depth : Nat} {v : Value}
    (ht : Work.Takes h quiet n c' (.script depth (.done v), m)) : ¬ c'.1.Hopeless c'.2 :=
  fun hl => ht.steps.not_done_of_lost hc.strict_host
    (Work.Steps.strict (.single hs) hc.strict_host hc.strict) hl depth v rfl

/-- An operation that leaves something that is not lost has answered. -/
theorem ok_of_not_hopeless (hc : State.Tame h sites (w, m))
    (ho : Work.Offers h quiet w op k) (hr : Yields (op.run m) r m') (hn : ¬ (k r).Hopeless m') :
    op.Fits ∧ ∃ a sites', r = .ok a ∧ op.run m = .ok a m' ∧ Grows sites m sites' m' ∧
      State.Tame h sites' (k (.ok a), m') := by
  have hf : op.Fits := by
    by_contra hf
    exact hn (ho.lost_of_not_fits hc.work hf hr)
  refine ⟨hf, ?_⟩
  rcases hc.run_cases Graph.inherited_any ho hf with ⟨a, m₁, sites', hrun, hk, hc'⟩ | ⟨e, hrun, -⟩
  · rw [hrun] at hr
    cases hr
    exact ⟨a, sites', rfl, hrun, hk.grows, hc', hc.strict_host, ho.strict hc.strict_host hc.strict _⟩
  · rw [hrun] at hr
    cases hr
    exact (hn ((ho.failing_of_error hc.work (.of_error hrun)).hopeless m)).elim

theorem after_ok (hc : State.Tame h sites (w, m)) (ho : Work.Offers h quiet w op k)
    (hf : op.Fits) {a : α} (hr : op.run m = .ok a m') :
    ∃ sites', Grows sites m sites' m' ∧ State.Tame h sites' (k (.ok a), m') := by
  rcases hc.run_cases Graph.inherited_any ho hf with ⟨a', m'', sites', hr', hk, hc'⟩ | ⟨e, hr', -⟩
  · cases hr.symm.trans hr'
    exact ⟨sites', hk.grows, hc', hc.strict_host, ho.strict hc.strict_host hc.strict _⟩
  · cases hr.symm.trans hr'

theorem step_of_not_hopeless {c c' : Work × Machine} (hc : State.Tame h sites c)
    (hs : Work.Step h quiet c c') (hn : ¬ c'.1.Hopeless c'.2) :
    ∃ sites', Grows sites c.2 sites' c'.2 ∧ State.Tame h sites' c' := by
  cases hs with
  | intro ho hy =>
    obtain ⟨-, a, sites', rfl, -, hg, hc'⟩ := hc.ok_of_not_hopeless ho hy hn
    exact ⟨sites', hg, hc'⟩

theorem steady (hc : State.Tame h sites (w, m)) {ρ : Renaming} (hρ : ρ.Fixes m) :
    h.Steady ρ := hc.host.steady hc.machine hρ

theorem renamed (hc : State.Tame h sites (w, m)) {ρ : Renaming} (hρ : ρ.Fixes m) :
    w.Renamed ρ w := Work.Fine.renamed hc.machine hρ hc.work

end State.Tame

mutual

theorem Work.Renamed.failing_iff {ρ : Renaming} {w w' : Work} (h : w.Renamed ρ w') :
    w'.Failing ↔ w.Failing := by
  cases h with
  | script depth hs => cases hs <;> simp [Work.Failing, Work.Lost]
  | bind depth hw hn =>
    simp only [Work.Failing, Work.Lost]
    exact Work.Renamed.failing_iff hw
  | boot | call => simp only [Work.Failing, Work.Lost]
  | level g f failure hj =>
    simp only [Work.Failing, Work.Lost]
    have hjob (i : Nat) := Job.Renamed.failing_iff (hj i)
    simp only [Job.Failing] at hjob
    simp only [hjob]
  | load target quiet hw =>
    simp only [Work.Failing, Work.Lost]
    exact Work.Renamed.failing_iff hw

theorem Job.Renamed.failing_iff {ρ : Renaming} {j j' : Job} (h : j.Renamed ρ j') :
    j'.Failing ↔ j.Failing := by
  cases h with
  | working hw =>
    simp only [Job.Failing, Job.Lost]
    exact Work.Renamed.failing_iff hw
  | _ => simp only [Job.Failing, Job.Lost]

end

/-! ## Two steps in either order -/

theorem Effect.activations_apply {e : Effect} {m : Machine} {scope o : Nat} {s : Slot}
    {a : Activation} (hs : e.store? = some (scope, o, s)) (ha : m.activations[scope]? = some a) :
    (e.apply m).activations[scope]? = some (a.put o s) := by
  have hlt := (Array.getElem?_eq_some_iff.mp ha).1
  show (e.stored m.activations ++ e.activations)[scope]? = _
  rw [Array.getElem?_append, Effect.size_stored, if_pos hlt, Effect.stored, hs]
  dsimp only
  rw [Array.getElem?_modify, if_pos rfl, ha]
  rfl

section Between

variable {P : Graph → Prop} {sites : Nat → Site} {m : Machine} {e₁ e₂ : Effect} {α : Type}
  {op : Op α} {reply : Machine → α}

/-- The answer of an operation now, and after another one. -/
theorem Op.Adds.alike_first (ha : op.Adds P sites m e₁ reply) :
    op.Alike (.between m e₁ e₂) (reply m) (reply (e₂.apply m)) := by
  refine ha.alike (Renaming.fixes_between m e₁ e₂) (fun hk => ?_) (fun hk => ?_) fun hk => ?_
  · exact rotate_first (Nat.le_refl _) (Nat.lt_add_of_pos_right hk)
  · refine (rotate_first (Nat.le_refl _) (Nat.lt_add_of_pos_right hk)).trans ?_
    exact Array.size_append.symm
  · refine (rotate_first (Nat.le_refl _) (Nat.lt_add_of_pos_right hk)).trans ?_
    show _ = (e₂.stored m.activations ++ e₂.activations).size
    rw [Array.size_append, Effect.size_stored]

theorem Op.Adds.alike_second (ha : op.Adds P sites m e₂ reply) :
    op.Alike (.between m e₁ e₂) (reply (e₁.apply m)) (reply m) := by
  refine ha.alike (Renaming.fixes_between m e₁ e₂) (fun hk => ?_) (fun hk => ?_) fun hk => ?_
  · refine (rotate_second (Nat.le_refl _) (Nat.lt_add_of_pos_right hk)).trans ?_
    exact Nat.add_sub_cancel ..
  · show rotate _ _ _ (m.images ++ e₁.images).size = _
    rw [Array.size_append, rotate_second (Nat.le_refl _) (Nat.lt_add_of_pos_right hk),
      Nat.add_sub_cancel]
  · show rotate _ _ _ (e₁.stored m.activations ++ e₁.activations).size = _
    rw [Array.size_append, Effect.size_stored,
      rotate_second (Nat.le_refl _) (Nat.lt_add_of_pos_right hk), Nat.add_sub_cancel]

/-- What has been written is not written again. -/
theorem Op.Adds.apart {sites₁ : Nat → Site} {β : Type} {op' : Op β} {reply' : Machine → β}
    (h₁ : op.Adds P sites m e₁ reply) (h₂ : op'.Adds P sites m e₂ reply')
    (hg : Grows sites m sites₁ (e₁.apply m)) (hs : op'.Safe P sites₁ (e₁.apply m))
    {scope o scope' o' : Nat} {s s' : Slot} (he₁ : e₁.store? = some (scope, o, s))
    (he₂ : e₂.store? = some (scope', o', s')) : ¬ (scope = scope' ∧ o = o') := by
  rintro ⟨rfl, rfl⟩
  obtain ⟨a, id, ha, ho⟩ := h₁.fine.place he₁
  have ho' : (a.put o s).offset? id = some o := by
    rw [Activation.offset?_congr (Activation.shape_put a o s), ho]
  have hfree := h₂.free he₂ hg hs (Effect.activations_apply he₁ ha) ho'
  rw [Activation.slot?_put ho, if_pos rfl] at hfree
  cases hfree

end Between

/-- Two steps that can be taken in either order come to the same up to the numbers they exchange. -/
theorem State.Tame.diamond {h : Host} {quiet : Bool} {sites : Nat → Site} {w : Work}
    {m m₁ m₂ : Machine} {α β : Type} {op₁ : Op α} {op₂ : Op β} {k₁ : Except RunError α → Work}
    {k₂ : Except RunError β → Work} {both : Except RunError α → Except RunError β → Work} {a₁ : α}
    {a₂ : β} (hc : State.Tame h sites (w, m)) (ho₁ : Work.Offers h quiet w op₁ k₁)
    (ho₂ : Work.Offers h quiet w op₂ k₂) (hb : Work.Commute h quiet w op₁ k₁ op₂ k₂ both)
    (hf₁ : op₁.Fits) (hf₂ : op₂.Fits) (hr₁ : op₁.run m = .ok a₁ m₁) (hr₂ : op₂.run m = .ok a₂ m₂)
    (hn₁ : ¬ (k₁ (.ok a₁)).Failing) :
    ∃ ρ b₁ b₂ m₁₂, ρ.Fixes m ∧ op₂.run m₁ = .ok b₂ m₁₂ ∧
      (both (.ok a₁) (.ok b₂)).Renamed ρ (both (.ok b₁) (.ok a₂)) ∧
      (¬ (k₂ (.ok a₂)).Failing → ∃ m₂₁, op₁.run m₂ = .ok b₁ m₂₁ ∧ m₁₂.Renamed ρ m₂₁) := by
  have hm : m.Fine sites := hc.machine
  have hs₁ := ho₁.safe hm hc.work
  have hs₂ := ho₂.safe hm hc.work
  obtain ⟨e₁, reply₁, hadd₁⟩ := Op.adds hm hs₁ hf₁ hr₁
  obtain ⟨e₂, reply₂, hadd₂⟩ := Op.adds hm hs₂ hf₂ hr₂
  have hnow₁ := hr₁.symm.trans (hadd₁.later (.refl sites m) hs₁)
  have hnow₂ := hr₂.symm.trans (hadd₂.later (.refl sites m) hs₂)
  cases hnow₁
  cases hnow₂
  obtain ⟨sites₁, hg₁, hc₁⟩ := hc.after_ok ho₁ hf₁ hr₁
  obtain ⟨sites₂, hg₂, hc₂⟩ := hc.after_ok ho₂ hf₂ hr₂
  have hs₁₂ := (hb.first _ hn₁).safe hc₁.machine hc₁.work
  have hρ := Renaming.fixes_between m e₁ e₂
  refine ⟨.between m e₁ e₂, reply₁ (e₂.apply m), reply₂ (e₁.apply m), _, hρ,
    hadd₂.later hg₁ hs₁₂, ?_, fun hn₂ => ⟨e₁.apply (e₂.apply m), ?_, ?_⟩⟩
  · exact hb.alike (hc.steady hρ) (hc.renamed hρ) (.ok hadd₁.alike_first) (.ok hadd₂.alike_second)
  · exact hadd₁.later hg₂ ((hb.second _ hn₂).safe hc₂.machine hc₂.work)
  · exact Effect.apply_comm hm hadd₁.fine hadd₂.fine (hadd₁.apart hadd₂ hg₁ hs₁₂)

/-! ## Runs under other numbers -/

theorem Op.Renamed.fits {ρ : Renaming} {α : Type} {op op' : Op α} (h : op.Renamed ρ op')
    (hf : op.Fits) : op'.Fits := by
  cases h with
  | enter => exact hf
  | _ => trivial

/-- A state under other numbers. -/
structure State.Renamed (ρ : Renaming) (c c' : Work × Machine) : Prop where
  work : c.1.Renamed ρ c'.1
  machine : c.2.Renamed ρ c'.2

theorem State.Tame.step_renamed {h : Host} {quiet : Bool} {ρ : Renaming} {sites sites' : Nat → Site}
    {c c' d : Work × Machine} (hc : State.Tame h sites c)
    (hc' : State.Tame h sites' c') (hh : h.Steady ρ) (hr : State.Renamed ρ c c')
    (hs : Work.Step h quiet c d) (hn : ¬ d.1.Hopeless d.2) :
    ∃ d' sites₁ sites₁', Work.Step h quiet c' d' ∧ State.Renamed ρ d d' ∧
      State.Tame h sites₁ d ∧ State.Tame h sites₁' d' := by
  obtain ⟨w', m'⟩ := c'
  cases hs with
  | intro ho hyields =>
    obtain ⟨hf, a, sites₁, rfl, -, -, hd⟩ := hc.ok_of_not_hopeless ho hyields hn
    obtain ⟨op', k', ho', hop, hk, -⟩ := ho.renamed hh hr.work
    obtain ⟨r', m₁', hyields', hagree, hm⟩ :=
      Op.run_renamed hr.machine hc.machine.nested hc'.machine.nested hop _ _ hyields
    have hwork := hk _ _ hagree
    cases hagree with
    | @ok _ a' ha =>
      generalize hx : op'.run m' = x at hyields'
      cases hyields'
      obtain ⟨sites₁', -, hd'⟩ := hc'.after_ok ho' (hop.fits hf) hx
      exact ⟨_, sites₁, sites₁', .intro ho' (.of_ok hx), ⟨hwork, hm⟩, hd, hd'⟩

/-- The outcomes of two runs, up to the numbers they have given out. -/
structure Outcome.Renamed (ρ : Renaming) (v : Value) (m : Machine) (v' : Value) (m' : Machine) :
    Prop where
  value : Value.Related ρ.link v v'
  machine : m.Renamed ρ m'

theorem Outcome.Renamed.trans {ρ σ : Renaming} {v v' v'' : Value} {m m' m'' : Machine}
    (h : Outcome.Renamed ρ v m v' m') (h' : Outcome.Renamed σ v' m' v'' m'') :
    Outcome.Renamed (ρ.trans σ) v m v'' m'' :=
  ⟨h.value.trans h'.value, h.machine.trans h'.machine⟩

namespace Work.Takes

variable {h : Host} {quiet : Bool} {n : Nat} {sites sites' : Nat → Site}
  {c c' : Work × Machine} {depth : Nat} {v : Value} {m : Machine} {ρ : Renaming}

/-- A run that comes to a value does so under other numbers. -/
theorem renamed (ht : Work.Takes h quiet n c (.script depth (.done v), m))
    (hc : State.Tame h sites c) (hc' : State.Tame h sites' c')
    (hh : h.Steady ρ) (hr : State.Renamed ρ c c') :
    ∃ v' m', Work.Takes h quiet n c' (.script depth (.done v'), m') ∧
      Outcome.Renamed ρ v m v' m' := by
  generalize hd : (Work.script depth (.done v), m) = d at ht
  induction ht generalizing sites sites' c' with
  | refl =>
    subst hd
    obtain ⟨w', m'⟩ := c'
    obtain ⟨hw, hm⟩ := hr
    dsimp only at hw hm
    cases hw with
    | script _ hs =>
      cases hs with
      | done hv => exact ⟨_, m', .refl _, hv, hm⟩
  | head hs ht ih =>
    have hn := hc.not_hopeless_of_step hs (hd ▸ ht)
    obtain ⟨d', sites₁, sites₁', hs', hr', hfine, hfine'⟩ := hc.step_renamed hc' hh hr hs hn
    obtain ⟨v', m', ht', ho⟩ := ih hfine hfine' hr' hd
    exact ⟨v', m', .head hs' ht', ho⟩

/-- What holds at the start of a run that comes to a value holds at its end. -/
theorem fine (ht : Work.Takes h quiet n c (.script depth (.done v), m))
    (hc : State.Tame h sites c) : ∃ sites', Grows sites c.2 sites' m ∧
      State.Tame h sites' (.script depth (.done v), m) := by
  generalize hd : (Work.script depth (.done v), m) = d at ht
  induction ht generalizing sites with
  | refl =>
    subst hd
    exact ⟨sites, .refl _ _, hc⟩
  | head hs ht ih =>
    obtain ⟨sites₁, hg, hc₁⟩ := hc.step_of_not_hopeless hs
      (hc.not_hopeless_of_step hs (hd ▸ ht))
    obtain ⟨sites', hg', hc'⟩ := ih hc₁ hd
    exact ⟨sites', hg.trans hg', hc'⟩

end Work.Takes

theorem Renaming.Fixes.mono {sites sites' : Nat → Site} {m m' : Machine} {ρ : Renaming}
    (h : ρ.Fixes m') (hg : Grows sites m sites' m') : ρ.Fixes m :=
  ⟨fun i hi => h.identity i (Nat.lt_of_lt_of_le hi hg.identities),
    fun i hi => h.scope i (Nat.lt_of_lt_of_le hi hg.size_le),
    fun i hi => h.unit i (Nat.lt_of_lt_of_le hi hg.images_size)⟩

theorem Renaming.Fixes.trans {m : Machine} {ρ σ : Renaming} (h : ρ.Fixes m) (h' : σ.Fixes m) :
    (ρ.trans σ).Fixes m := by
  refine ⟨fun i hi => ?_, fun i hi => ?_, fun i hi => ?_⟩
  · show σ.identity (ρ.identity i) = i
    rw [h.identity i hi, h'.identity i hi]
  · show σ.scope (ρ.scope i) = i
    rw [h.scope i hi, h'.scope i hi]
  · show σ.unit (ρ.unit i) = i
    rw [h.unit i hi, h'.unit i hi]

/-- An outcome is the same as itself. -/
theorem Outcome.Renamed.self {h : Host} {sites : Nat → Site} {depth : Nat} {v : Value} {m : Machine}
    (hc : State.Tame h sites (.script depth (.done v), m)) :
    ∃ ρ : Renaming, ρ.Fixes m ∧ Outcome.Renamed ρ v m v m := by
  have hρ := Renaming.fixes_between m .none .none
  have hm := Effect.apply_comm hc.machine (Effect.fine_none m) (Effect.fine_none m) nofun
  refine ⟨_, hρ, ?_, by simpa using hm⟩
  have hw := hc.renamed hρ
  cases hw with
  | script _ hs =>
    cases hs with
    | done hv => exact hv

/-! ## Random descent -/

/-- A step that could have been taken before another one leads to the same value from there. -/
theorem State.Tame.swap {h : Host} {quiet : Bool} {sites : Nat → Site} {w : Work}
    {m m₁ m₂ m₁₂ mv : Machine} {α β : Type} {op₁ : Op α} {op₂ : Op β} {k₁ : Except RunError α → Work}
    {k₂ : Except RunError β → Work} {both : Except RunError α → Except RunError β → Work} {a₁ : α}
    {r₂ r₁₂ : Except RunError β} {n depth : Nat} {v : Value}
    (hc : State.Tame h sites (w, m)) (ho₁ : Work.Offers h quiet w op₁ k₁)
    (ho₂ : Work.Offers h quiet w op₂ k₂) (hb : Work.Commute h quiet w op₁ k₁ op₂ k₂ both)
    (hf₁ : op₁.Fits) (hr₁ : op₁.run m = .ok a₁ m₁) (hn₁ : ¬ (k₁ (.ok a₁)).Failing)
    (hy₁₂ : Yields (op₂.run m₁) r₁₂ m₁₂)
    (ht : Work.Takes h quiet n (both (.ok a₁) r₁₂, m₁₂) (.script depth (.done v), mv))
    (hy₂ : Yields (op₂.run m) r₂ m₂) :
    ∃ ρ v' m', Work.Takes h quiet (n + 1) (k₂ r₂, m₂) (.script depth (.done v'), m') ∧
      ρ.Fixes m ∧ Outcome.Renamed ρ v mv v' m' := by
  obtain ⟨sites₁, hg₁, hc₁⟩ := hc.after_ok ho₁ hf₁ hr₁
  have hlive := hc₁.not_hopeless_of_step (.intro (hb.first _ hn₁) hy₁₂) ht
  obtain ⟨hf₂, b₂, sites₁₂, rfl, hr₁₂, -, hc₁₂⟩ :=
    hc₁.ok_of_not_hopeless (hb.first _ hn₁) hy₁₂ hlive
  -- the second step cannot fail when it comes first, or it would fail later too
  obtain ⟨a₂, rfl, hr₂⟩ : ∃ a₂, r₂ = .ok a₂ ∧ op₂.run m = .ok a₂ m₂ := by
    rcases hc.run_cases Graph.inherited_any ho₂ hf₂ with ⟨a₂, m', sites', hrun, -⟩ | ⟨e, hrun, -⟩
    · rw [hrun] at hy₂
      cases hy₂
      exact ⟨a₂, rfl, hrun⟩
    · have hlater := Op.fails_later Graph.inherited_any hc.machine
        (ho₂.safe hc.machine hc.work) hf₂ hg₁ hrun
      cases hr₁₂.symm.trans hlater
  obtain ⟨ρ, b₁, b₂', m₁₂', hρ, hr₁₂', hwork, hsecond⟩ :=
    hc.diamond ho₁ ho₂ hb hf₁ hf₂ hr₁ hr₂ hn₁
  cases hr₁₂.symm.trans hr₁₂'
  have hn₂ : ¬ (k₂ (.ok a₂)).Failing := fun hf =>
    hlive ((hwork.failing_iff.mp (hb.failing _ _ hf)).hopeless _)
  obtain ⟨m₂₁, hr₂₁, hm⟩ := hsecond hn₂
  obtain ⟨sites₂, -, hc₂⟩ := hc.after_ok ho₂ hf₂ hr₂
  obtain ⟨sites₂₁, -, hc₂₁⟩ := hc₂.after_ok (hb.second _ hn₂) hf₁ hr₂₁
  obtain ⟨v', m', ht', ho⟩ := ht.renamed hc₁₂ hc₂₁ (hc.steady hρ) ⟨hwork, hm⟩
  exact ⟨ρ, v', m', .head (.intro (hb.second _ hn₂) (.of_ok hr₂₁)) ht', hρ, ho⟩

namespace Work.Takes

variable {h : Host} {quiet : Bool} {sites : Nat → Site} {c d : Work × Machine} {depth : Nat}
  {v : Value} {m : Machine}

/-- **The first step of a run that comes to a value can be any step.** What follows it comes to the
same value, a step shorter. -/
theorem descend {n : Nat} (hc : State.Tame h sites c)
    (ht : Work.Takes h quiet (n + 1) c (.script depth (.done v), m)) (hs : Work.Step h quiet c d) :
    ∃ ρ v' m', Work.Takes h quiet n d (.script depth (.done v'), m') ∧ ρ.Fixes c.2 ∧
      Outcome.Renamed ρ v m v' m' := by
  induction n using Nat.strong_induction_on generalizing sites c d depth v m with
  | _ n ih =>
    have hnw := hc.not_hopeless ht
    cases ht with
    | head hs₁ ht =>
      have hn₁ := hc.not_hopeless_of_step hs₁ ht
      cases hs₁ with
      | intro ho₁ hy₁ =>
        cases hs with
        | intro ho₂ hy₂ =>
          obtain ⟨hf₁, a₁, sites₁, rfl, hr₁, hg₁, hc₁⟩ := hc.ok_of_not_hopeless ho₁ hy₁ hn₁
          rcases ho₁.commute hc.work (fun hw => hnw (hw.hopeless _)) ho₂ with hsame | ⟨both, hb⟩
          · -- the same step: the rest of the run is what is asked for
            cases hsame
            obtain ⟨rfl, rfl⟩ := hy₁.unique hy₂
            obtain ⟨sites', hg, hc'⟩ := ht.fine hc₁
            obtain ⟨ρ, hρ, ho⟩ := Outcome.Renamed.self hc'
            exact ⟨ρ, v, m, ht, hρ.mono (hg₁.trans hg), ho⟩
          · -- another step: the rest of the run can begin with it, and the two can be swapped
            have hn : ¬ Work.Failing _ := fun hf => hn₁ (hf.hopeless _)
            cases n with
            | zero => exact (ht.not_offers (hb.first _ hn)).elim
            | succ n =>
              obtain ⟨r₁₂, m₁₂, hy₁₂⟩ := Op.total _ _
              obtain ⟨ρ, v', m', ht', hρ, ho⟩ :=
                ih n (Nat.lt_succ_self n) hc₁ ht (.intro (hb.first _ hn) hy₁₂)
              obtain ⟨σ, v'', m'', ht'', hσ, ho'⟩ := hc.swap ho₁ ho₂ hb hf₁ hr₁ hn hy₁₂ ht' hy₂
              exact ⟨ρ.trans σ, v'', m'', ht'', (hρ.mono hg₁).trans hσ, ho.trans ho'⟩

/-- **Every run can be continued to the same value.** In the end all of them have the same
length. -/
theorem complete {n k : Nat} (hc : State.Tame h sites c)
    (ht : Work.Takes h quiet n c (.script depth (.done v), m)) (hd : Work.Takes h quiet k c d) :
    ∃ ρ v' m' l, Work.Takes h quiet l d (.script depth (.done v'), m') ∧ k + l = n ∧ ρ.Fixes c.2 ∧
      Outcome.Renamed ρ v m v' m' := by
  induction hd generalizing n sites v m with
  | refl =>
    obtain ⟨sites', hg, hc'⟩ := ht.fine hc
    obtain ⟨ρ, hρ, ho⟩ := Outcome.Renamed.self hc'
    exact ⟨ρ, v, m, n, ht, Nat.zero_add n, hρ.mono hg, ho⟩
  | head hs hd ih =>
    cases n with
    | zero =>
      cases hs with
      | intro ho hy => exact (ht.not_offers ho).elim
    | succ n =>
      obtain ⟨ρ, v₁, m₁, ht₁, hρ, ho₁⟩ := descend hc ht hs
      obtain ⟨sites₁, hg₁, hc₁⟩ : ∃ sites₁, Grows sites _ sites₁ _ ∧ State.Tame h sites₁ _ :=
        hc.step_of_not_hopeless hs (hc.not_hopeless_of_step hs ht₁)
      obtain ⟨σ, v₂, m₂, l, ht₂, hl, hσ, ho₂⟩ := ih hc₁ ht₁
      exact ⟨ρ.trans σ, v₂, m₂, l, ht₂, by omega, hρ.trans (hσ.mono hg₁), ho₁.trans ho₂⟩

end Work.Takes

end Dataflow
