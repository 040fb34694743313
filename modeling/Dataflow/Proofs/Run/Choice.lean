import Dataflow.Proofs.Run.Lost

/-!
# Which step comes first

Where two different things can be done next, they are done at different blocks of some graph under
way. Either of them can still be done after the other, and it does not matter which comes first, as
long as nothing fails.

* `Work.Touch`: one block of a graph goes on;
* `Work.Commute`: two things that can be done in either order;
* **`Work.Offers.commute`**: two things that can be done next are the same, or can be done in either
  order.
-/

namespace Dataflow

open Run

/-- The same thing is done, and it goes on in the same way. -/
inductive Op.Same {γ : Type} {α : Type} (op : Op α) (k : Except RunError α → γ) :
    {β : Type} → Op β → (Except RunError β → γ) → Prop where
  | refl : Op.Same op k op k

/-- There is at most one thing that a block can do next. -/
theorem Job.Offers.unique {f : Frame} {id : ValueId} {j : Job} {α β : Type} {op : Op α}
    {op' : Op β} {k : Except RunError α → Job} {k' : Except RunError β → Job}
    (ho : j.Offers f id op k) (ho' : j.Offers f id op' k') : op.Same k op' k' := by
  cases ho with
  | stuck args hs =>
    cases ho' with
    | stuck => exact .refl
    | _ => exact hs.elim
  | argument | call | constant | field | copy =>
    cases ho' with
    | stuck _ hs => exact hs.elim
    | _ => exact .refl
  | name | done | fail | put =>
    cases ho'
    exact .refl

theorem Work.not_offers_done {h : Host} {quiet : Bool} {depth : Nat} {v : Value} {α : Type}
    {op : Op α} {k : Except RunError α → Work} :
    ¬ Work.Offers h quiet (.script depth (.done v)) op k := by
  rintro ⟨⟩

theorem Work.not_offers_fail {h : Host} {quiet : Bool} {depth : Nat} {e : RunError} {α : Type}
    {op : Op α} {k : Except RunError α → Work} :
    ¬ Work.Offers h quiet (.script depth (.fail e)) op k := by
  rintro ⟨⟩

/-! ## Blocks that go on -/

/-- Block `i` of a graph under way goes on. -/
inductive Work.Touch (h : Host) (quiet : Bool) (g : Graph) (f : Frame) (jobs : Nat → Job)
    (failure : Option RunError) (i : Nat) : {α : Type} → Op α → (Except RunError α → Job) → Prop where
  | start {b : Block} (hb : g.blocks[i]? = some b) (hw : jobs i = .waiting) (hf : g.Free jobs i)
    (hn : failure = none) : Work.Touch h quiet g f jobs failure i .idle fun _ => b.start f
  | job {b : Block} {α : Type} {op : Op α} {k : Except RunError α → Job}
    (hb : g.blocks[i]? = some b) (ho : (jobs i).Offers f b.id op k) :
    Work.Touch h quiet g f jobs failure i op k
  | work {w : Work} {α : Type} {op : Op α} {k : Except RunError α → Work}
    (hw : jobs i = .working w) (ho : Work.Offers h quiet w op k) :
    Work.Touch h quiet g f jobs failure i op fun r => .working (k r)

namespace Work.Touch

variable {h : Host} {quiet : Bool} {g : Graph} {f : Frame} {jobs : Nat → Job}
  {failure failure' : Option RunError} {i j : Nat} {α : Type} {op : Op α}
  {x : Except RunError α → Job}

theorem offers (ht : Work.Touch h quiet g f jobs failure i op x) :
    Work.Offers h quiet (.level g f jobs failure) op fun r =>
      .level g f (Function.update jobs i (x r)) (failure.or (x r).error?) := by
  cases ht with
  | @start b hb hw hf hn =>
    subst hn
    have hstart : (b.start f).error? = none := by cases b <;> rfl
    dsimp only
    rw [hstart]
    exact .start quiet f hb hw hf
  | job hb ho => exact .job quiet failure hb ho
  | work hw ho =>
    simp only [Job.error?, Option.or_none]
    exact .work g f failure hw ho

theorem ne_finished (ht : Work.Touch h quiet g f jobs failure i op x) : jobs i ≠ .finished := by
  cases ht with
  | start _ hw => rw [hw]; exact nofun
  | job _ ho =>
    intro he
    rw [he] at ho
    cases ho
  | work hw => rw [hw]; exact nofun

/-- A block can go on when another one has gone on and has not failed. -/
theorem persist (ht : Work.Touch h quiet g f jobs failure j op x) (hij : j ≠ i)
    (hi : jobs i ≠ .finished) (y : Job) (hf : failure = none → failure' = none) :
    Work.Touch h quiet g f (Function.update jobs i y) failure' j op x := by
  cases ht with
  | start hb hw hfree hn =>
    exact .start hb (by rwa [Function.update_of_ne hij]) (hfree.update hi y) (hf hn)
  | job hb ho => exact .job hb (by rwa [Function.update_of_ne hij])
  | work hw ho => exact .work (by rwa [Function.update_of_ne hij]) ho

/-- What a block comes to is the same under other numbers. -/
theorem renamed (ht : Work.Touch h quiet g f jobs failure i op x) {ρ : Renaming} (hh : h.Steady ρ)
    (hf : ρ.frame f = f) (hj : (jobs i).Renamed ρ (jobs i)) {r r' : Except RunError α}
    (hr : Agree (op.Alike ρ) r r') : (x r).Renamed ρ (x r') := by
  cases ht with
  | @start b =>
    have hb := b.start_renamed (ρ := ρ) f
    rwa [hf] at hb
  | job hb ho =>
    obtain ⟨op', k', -, -, hk, hsame⟩ := ho.renamed hj
    obtain ⟨-, rfl⟩ := hsame hf rfl
    exact hk r r' hr
  | work hw ho =>
    rw [hw] at hj
    cases hj with
    | working hw' =>
      obtain ⟨op', k', -, -, hk, hsame⟩ := ho.renamed hh hw'
      obtain ⟨-, rfl⟩ := hsame rfl
      exact .working (hk r r' hr)

end Work.Touch

/-- A graph under way ends, since none of its blocks can go on. -/
inductive Work.Closing (g : Graph) (f : Frame) (jobs : Nat → Job) :
    Option RunError → {α : Type} → Op α → (Except RunError α → Work) → Prop where
  | result {id : ValueId} (hr : g.result? = some id) (hf : g.unfinished jobs = []) :
    Work.Closing g f jobs none (.result f.scope id) (Work.after fun v => .script f.depth (.done v))
  | abort (e : RunError) (hn : ∀ i, (jobs i).isRunning = false) :
    Work.Closing g f jobs (some e) .idle fun _ => .fail e
  | cycle (hn : ∀ i, (jobs i).isRunning = false) (hu : g.unfinished jobs ≠ [])
    (hf : ∀ i < g.blocks.length, jobs i = .waiting → ¬ g.Free jobs i) :
    Work.Closing g f jobs none .idle fun _ => .fail (.cycle (g.unfinished jobs).length)

section Closing

variable {h : Host} {quiet : Bool} {g : Graph} {f : Frame} {jobs : Nat → Job}
  {failure : Option RunError} {α β : Type} {op : Op α} {op' : Op β}

theorem Work.Offers.level_cases {k : Except RunError α → Work}
    (ho : Work.Offers h quiet (.level g f jobs failure) op k) :
    (∃ i x, Work.Touch h quiet g f jobs failure i op x ∧ k = fun r =>
      .level g f (Function.update jobs i (x r)) (failure.or (x r).error?)) ∨
    Work.Closing g f jobs failure op k := by
  cases ho with
  | @start _ _ _ _ i b hb hw hf =>
    refine .inl ⟨i, _, .start hb hw hf rfl, ?_⟩
    have hstart : (b.start f).error? = none := by cases b <;> rfl
    simp only [hstart, Option.or_none]
  | job _ _ hb ho => exact .inl ⟨_, _, .job hb ho, rfl⟩
  | work _ _ _ hw ho =>
    refine .inl ⟨_, _, .work hw ho, ?_⟩
    simp only [Job.error?, Option.or_none]
  | result _ _ hr hf => exact .inr (.result hr hf)
  | abort _ _ _ e hn => exact .inr (.abort e hn)
  | cycle _ _ hn hu hf => exact .inr (.cycle hn hu hf)

theorem Work.Closing.unique {k : Except RunError α → Work} {k' : Except RunError β → Work}
    (hc : Work.Closing g f jobs failure op k) (hc' : Work.Closing g f jobs failure op' k') :
    op.Same k op' k' := by
  cases hc with
  | result hr hf =>
    cases hc' with
    | result hr' =>
      obtain rfl := Option.some.inj (hr.symm.trans hr')
      exact .refl
    | cycle _ hu => exact (hu hf).elim
  | abort =>
    cases hc'
    exact .refl
  | cycle _ hu =>
    cases hc' with
    | result _ hf => exact (hu hf).elim
    | cycle => exact .refl

theorem Work.Closing.not_touch {sites : Nat → Site} {m : Machine} {k : Except RunError α → Work}
    (hc : Work.Closing g f jobs failure op k) (hl : LevelFine sites m g f jobs) {i : Nat}
    {x : Except RunError β → Job} : ¬ Work.Touch h quiet g f jobs failure i op' x := by
  intro ht
  have hi : i < g.blocks.length := by
    cases ht with
    | start hb | job hb => exact (List.getElem?_eq_some_iff.mp hb).1
    | work hw =>
      refine Nat.lt_of_not_le fun hle => ?_
      cases hw.symm.trans (hl.outside hle)
  have hrunning (hn : ∀ i, (jobs i).isRunning = false) : jobs i = .waiting ∧ g.Free jobs i ∧
      failure = none := by
    cases ht with
    | start hb hw hf hnone => exact ⟨hw, hf, hnone⟩
    | job _ ho =>
      have hr := ho.isRunning
      rw [hn i] at hr
      cases hr
    | work hw =>
      have hr := hn i
      rw [hw] at hr
      cases hr
  cases hc with
  | result _ hf => exact ht.ne_finished (Graph.finished_of_unfinished_eq_nil hf hi)
  | abort e hn => cases (hrunning hn).2.2
  | cycle hn _ hf => exact hf i hi (hrunning hn).1 (hrunning hn).2.1

/-- Where the blocks of a graph are over, there is nothing else to do. -/
theorem Work.Closing.same_of_offers {sites : Nat → Site} {m : Machine} {k : Except RunError α → Work}
    {k' : Except RunError β → Work} (hc : Work.Closing g f jobs failure op k)
    (hl : LevelFine sites m g f jobs) (ho : Work.Offers h quiet (.level g f jobs failure) op' k') :
    op.Same k op' k' := by
  rcases ho.level_cases with ⟨i, x, hx, -⟩ | hc'
  · exact (hc.not_touch hl hx).elim
  · exact hc.unique hc'

end Closing

/-! ## Steps in either order -/

theorem Work.Renamed.level_eq {ρ : Renaming} {g : Graph} {f : Frame} {jobs : Nat → Job}
    {failure : Option RunError} {w : Work} (hw : (Work.level g f jobs failure).Renamed ρ w) :
    ∃ jobs', w = .level g (ρ.frame f) jobs' failure ∧ ∀ i, (jobs i).Renamed ρ (jobs' i) := by
  cases hw with
  | level _ _ _ hj => exact ⟨_, rfl, hj⟩

theorem Work.Renamed.level_self {ρ : Renaming} {g : Graph} {f : Frame} {jobs : Nat → Job}
    {failure : Option RunError}
    (hw : (Work.level g f jobs failure).Renamed ρ (.level g f jobs failure)) :
    ρ.frame f = f ∧ ∀ i, (jobs i).Renamed ρ (jobs i) := by
  obtain ⟨jobs', he, hj⟩ := hw.level_eq
  simp only [Work.level.injEq, true_and, and_true] at he
  obtain ⟨hf, rfl⟩ := he
  exact ⟨hf.symm, hj⟩

/-- Two things that can be done in either order, as long as nothing fails. -/
structure Work.Commute (h : Host) (quiet : Bool) (w : Work) {α β : Type} (op : Op α)
    (k : Except RunError α → Work) (op' : Op β) (k' : Except RunError β → Work)
    (both : Except RunError α → Except RunError β → Work) : Prop where
  first : ∀ r, ¬ (k r).Failing → Work.Offers h quiet (k r) op' (both r)
  second : ∀ r', ¬ (k' r').Failing → Work.Offers h quiet (k' r') op fun r => both r r'
  failing : ∀ r r', (k' r').Failing → (both r r').Failing
  alike : ∀ {ρ : Renaming}, h.Steady ρ → w.Renamed ρ w → ∀ {r s r' s'}, Agree (op.Alike ρ) r s →
    Agree (op'.Alike ρ) r' s' → (both r r').Renamed ρ (both s s')

theorem Work.Touch.commute {h : Host} {quiet : Bool} {g : Graph} {f : Frame} {jobs : Nat → Job}
    {failure : Option RunError} {i j : Nat} {α β : Type} {op : Op α} {op' : Op β}
    {x : Except RunError α → Job} {y : Except RunError β → Job}
    (hn : ¬ (Work.level g f jobs failure).Failing)
    (hx : Work.Touch h quiet g f jobs failure i op x)
    (hy : Work.Touch h quiet g f jobs failure j op' y) (hij : i ≠ j) :
    Work.Commute h quiet (.level g f jobs failure) op
      (fun r => .level g f (Function.update jobs i (x r)) (failure.or (x r).error?)) op'
      (fun r => .level g f (Function.update jobs j (y r)) (failure.or (y r).error?))
      fun r r' => .level g f (Function.update (Function.update jobs i (x r)) j (y r'))
        ((failure.or (x r).error?).or (y r').error?) := by
  have hnone {jobs : Nat → Job} {failure : Option RunError}
      (hn : ¬ (Work.level g f jobs failure).Failing) : failure = none := by
    rw [Work.Failing, Work.Lost, not_or] at hn
    simpa using hn.1
  refine ⟨fun r hr => ?_, fun r' hr' => ?_, fun r r' hr' => ?_, fun {ρ} hh hw => ?_⟩
  · exact (hy.persist hij.symm hx.ne_finished (x r) fun _ => hnone hr).offers
  · have hy' := hnone hr'
    obtain rfl := hnone hn
    rw [Option.none_or] at hy'
    have ho := (hx.persist hij hy.ne_finished (y r') fun _ => rfl).offers
    simp only [hy', Option.none_or, Option.or_none, Function.update_comm hij] at ho ⊢
    exact ho
  · rw [Work.Failing, Work.Lost] at hr' ⊢
    obtain rfl := hnone hn
    rcases hr' with hf | hf | ⟨l, hl, hj⟩
    · rw [Option.none_or] at hf
      exact .inl (by rw [Option.isSome_or, hf, Bool.or_true])
    · exact hf.elim
    · by_cases hlj : l = j
      · subst hlj
        rw [Function.update_self] at hj
        exact .inr (.inr ⟨l, hl, by rwa [Function.update_self]⟩)
      · rw [Function.update_of_ne hlj] at hj
        refine (hn ?_).elim
        rw [Work.Failing, Work.Lost]
        exact .inr (.inr ⟨l, hl, hj⟩)
  · intro r s r' s' hr hr'
    obtain ⟨hf, hjobs⟩ := hw.level_self
    have hxr := hx.renamed hh hf (hjobs i) hr
    have hyr := hy.renamed hh hf (hjobs j) hr'
    have hlevel := Work.Renamed.level (ρ := ρ) g f ((failure.or (x r).error?).or (y r').error?)
      fun l => Job.Renamed.update (i := j) (Job.Renamed.update (i := i) hjobs hxr) hyr l
    rw [hf] at hlevel
    rwa [hxr.error?_eq, hyr.error?_eq]

namespace Work.Commute

variable {h : Host} {quiet : Bool} {w : Work} {α β : Type} {op : Op α} {op' : Op β}
  {k : Except RunError α → Work} {k' : Except RunError β → Work}
  {both : Except RunError α → Except RunError β → Work}

theorem bind (hc : Work.Commute h quiet w op k op' k' both) (depth : Nat)
    (next : Except RunError Value → Script Value) : Work.Commute h quiet (.bind depth w next) op
      (fun r => .bind depth (k r) next) op' (fun r => .bind depth (k' r) next)
      fun r r' => .bind depth (both r r') next := by
  refine ⟨fun r hr => ?_, fun r' hr' => ?_, fun r r' hr' => ?_, fun {ρ} hh hw => ?_⟩
  · rw [Work.Failing, Work.Lost] at hr
    exact .inner depth next (hc.first r hr)
  · rw [Work.Failing, Work.Lost] at hr'
    exact .inner depth next (hc.second r' hr')
  · rw [Work.Failing, Work.Lost] at hr' ⊢
    exact hc.failing r r' hr'
  · intro r s r' s' hr hr'
    cases hw with
    | bind _ hi hn => exact .bind depth (hc.alike hh hi hr hr') hn

theorem load {quiet' : Bool} (hc : Work.Commute h (quiet || quiet') w op k op' k' both)
    (target : String) : Work.Commute h quiet (.load target quiet' w) op
      (fun r => .load target quiet' (k r)) op' (fun r => .load target quiet' (k' r))
      fun r r' => .load target quiet' (both r r') := by
  refine ⟨fun r hr => ?_, fun r' hr' => ?_, fun r r' hr' => ?_, fun {ρ} hh hw => ?_⟩
  · rw [Work.Failing, Work.Lost] at hr
    exact .loading target quiet' (hc.first r hr)
  · rw [Work.Failing, Work.Lost] at hr'
    exact .loading target quiet' (hc.second r' hr')
  · rw [Work.Failing, Work.Lost] at hr' ⊢
    exact hc.failing r r' hr'
  · intro r s r' s' hr hr'
    cases hw with
    | load _ _ hi => exact .load target quiet' (hc.alike hh hi hr hr')

/-- Both things are done in the work of one block. -/
theorem level (hc : Work.Commute h quiet w op k op' k' both) {g : Graph} {f : Frame}
    {jobs : Nat → Job} {failure : Option RunError} {i : Nat} (hi : i < g.blocks.length)
    (hw : jobs i = .working w) (hn : ¬ (Work.level g f jobs failure).Failing) :
    Work.Commute h quiet (.level g f jobs failure) op
      (fun r => .level g f (Function.update jobs i (.working (k r))) failure) op'
      (fun r => .level g f (Function.update jobs i (.working (k' r))) failure)
      fun r r' => .level g f (Function.update jobs i (.working (both r r'))) failure := by
  have hinner {w' : Work}
      (hn : ¬ (Work.level g f (Function.update jobs i (.working w')) failure).Failing) :
      ¬ w'.Failing := by
    intro hf
    refine hn (Work.lost_update hi ?_)
    rwa [Job.Lost]
  refine ⟨fun r hr => ?_, fun r' hr' => ?_, fun r r' hr' => ?_, fun {ρ} hh hw' => ?_⟩
  · have ho := Work.Offers.work g f failure (Function.update_self i _ jobs)
      (hc.first r (hinner hr))
    simpa only [Function.update_idem] using ho
  · have ho := Work.Offers.work g f failure (Function.update_self i _ jobs)
      (hc.second r' (hinner hr'))
    simpa only [Function.update_idem] using ho
  · rw [Work.Failing, Work.Lost] at hr'
    rcases hr' with hf | hf | ⟨l, hl, hj⟩
    · rw [Work.Failing, Work.Lost]
      exact .inl hf
    · exact hf.elim
    · by_cases hli : l = i
      · rw [hli, Function.update_self, Job.Lost] at hj
        refine Work.lost_update hi ?_
        rw [Job.Lost]
        exact hc.failing r r' hj
      · rw [Function.update_of_ne hli] at hj
        refine (hn ?_).elim
        rw [Work.Failing, Work.Lost]
        exact .inr (.inr ⟨l, hl, hj⟩)
  · intro r s r' s' hr hr'
    obtain ⟨hf, hjobs⟩ := hw'.level_self
    have hi := hjobs i
    rw [hw] at hi
    cases hi with
    | working hi =>
      have hlevel := Work.Renamed.level (ρ := ρ) g f failure
        fun l => Job.Renamed.update (i := i) hjobs (.working (hc.alike hh hi hr hr')) l
      rwa [hf] at hlevel

end Work.Commute

/-- What a graph under way comes to when one of its blocks goes on. -/
abbrev Work.resumed (g : Graph) (f : Frame) (jobs : Nat → Job) (failure : Option RunError) (i : Nat)
    {α : Type} (x : Except RunError α → Job) (r : Except RunError α) : Work :=
  .level g f (Function.update jobs i (x r)) (failure.or (x r).error?)

theorem Work.resumed_eq {g : Graph} {f : Frame} {jobs : Nat → Job} {failure : Option RunError}
    {i : Nat} {α : Type} {x : Except RunError α → Job} (hx : ∀ r, (x r).error? = none) :
    Work.resumed g f jobs failure i x = fun r =>
      .level g f (Function.update jobs i (x r)) failure := by
  funext r
  rw [Work.resumed, hx r, Option.or_none]

section Touch

variable {h : Host} {quiet : Bool} {g : Graph} {f : Frame} {jobs : Nat → Job}
  {failure : Option RunError} {i : Nat} {α β : Type} {op : Op α} {op' : Op β}
  {x : Except RunError α → Job}

/-- Where one block of a graph goes on, it is enough to know what else that block can do. -/
theorem Work.Touch.commute_of_self {sites : Nat → Site} {m : Machine}
    (ht : Work.Touch h quiet g f jobs failure i op x) (hl : LevelFine sites m g f jobs)
    (hn : ¬ (Work.level g f jobs failure).Failing) {k' : Except RunError β → Work}
    (ho : Work.Offers h quiet (.level g f jobs failure) op' k')
    (hself : ∀ {y : Except RunError β → Job}, Work.Touch h quiet g f jobs failure i op' y →
      op.Same x op' y ∨ ∃ both, Work.Commute h quiet (.level g f jobs failure) op
        (Work.resumed g f jobs failure i x) op' (Work.resumed g f jobs failure i y) both) :
    op.Same (Work.resumed g f jobs failure i x) op' k' ∨
      ∃ both, Work.Commute h quiet (.level g f jobs failure) op
        (Work.resumed g f jobs failure i x) op' k' both := by
  rcases ho.level_cases with ⟨j, y, hy, rfl⟩ | hc
  · by_cases hij : i = j
    · subst hij
      rcases hself hy with hsame | hboth
      · cases hsame
        exact .inl .refl
      · exact .inr hboth
    · exact .inr ⟨_, ht.commute hn hy hij⟩
  · exact (hc.not_touch hl ht).elim

theorem Work.Touch.self_of_start {b : Block} (hb : g.blocks[i]? = some b)
    (hw : jobs i = .waiting) {y : Except RunError β → Job}
    (ht : Work.Touch h quiet g f jobs failure i op' y) :
    Op.idle.Same (fun _ => b.start f) op' y := by
  cases ht with
  | start hb' =>
    obtain rfl := Option.some.inj (hb.symm.trans hb')
    exact .refl
  | job _ ho =>
    rw [hw] at ho
    cases ho
  | work hw' => cases hw.symm.trans hw'

theorem Work.Touch.self_of_job {b : Block} (hb : g.blocks[i]? = some b)
    (ho : (jobs i).Offers f b.id op x) {y : Except RunError β → Job}
    (ht : Work.Touch h quiet g f jobs failure i op' y) : op.Same x op' y := by
  cases ht with
  | start _ hw =>
    rw [hw] at ho
    cases ho
  | job hb' ho' =>
    obtain rfl := Option.some.inj (hb.symm.trans hb')
    exact ho.unique ho'
  | work hw ho' =>
    rw [hw] at ho
    cases ho with
    | done => exact (Work.not_offers_done ho').elim
    | fail => exact (Work.not_offers_fail ho').elim

theorem Work.Touch.work_of_working {w : Work} (hw : jobs i = .working w)
    (hne : ∃ (γ : Type) (op : Op γ) (k : Except RunError γ → Work), Work.Offers h quiet w op k)
    {y : Except RunError β → Job}
    (ht : Work.Touch h quiet g f jobs failure i op' y) :
    ∃ k' : Except RunError β → Work, Work.Offers h quiet w op' k' ∧ y = fun r => .working (k' r) := by
  obtain ⟨γ, op₀, k₀, hk⟩ := hne
  cases ht with
  | start _ hw' => cases hw.symm.trans hw'
  | job _ ho =>
    rw [hw] at ho
    cases ho with
    | done => exact (Work.not_offers_done hk).elim
    | fail => exact (Work.not_offers_fail hk).elim
  | work hw' ho =>
    cases hw.symm.trans hw'
    exact ⟨_, ho, rfl⟩

end Touch

/-- Two things that can be done next are the same, or they can be done in either order. -/
theorem Work.Offers.commute {P : Graph → Prop} {sites : Nat → Site} {m : Machine} {h : Host}
    {quiet : Bool} {w : Work} {α β : Type} {op : Op α} {op' : Op β} {k : Except RunError α → Work}
    {k' : Except RunError β → Work} (ho : Work.Offers h quiet w op k) (hw : w.Fine P sites m)
    (hn : ¬ w.Failing) (ho' : Work.Offers h quiet w op' k') :
    op.Same k op' k' ∨ ∃ both, Work.Commute h quiet w op k op' k' both := by
  induction ho generalizing k' with
  | print | mute | mint | depth | ask | boot =>
    cases ho'
    exact .inl .refl
  | noLoader _ _ _ _ hl =>
    cases ho' with
    | noLoader => exact .inl .refl
    | load _ _ _ _ hl' => cases hl.symm.trans hl'
  | load _ _ _ _ hl =>
    cases ho' with
    | noLoader _ _ _ _ hl' => cases hl.symm.trans hl'
    | load _ _ _ _ hl' =>
      cases hl.symm.trans hl'
      exact .inl .refl
  | answered =>
    cases ho' with
    | answered => exact .inl .refl
    | inner _ _ ho' => exact (Work.not_offers_done ho').elim
  | refused =>
    cases ho' with
    | refused => exact .inl .refl
    | inner _ _ ho' => exact (Work.not_offers_fail ho').elim
  | loaded =>
    cases ho' with
    | loaded => exact .inl .refl
    | loading _ _ ho' => exact (Work.not_offers_done ho').elim
  | unloaded =>
    cases ho' with
    | unloaded => exact .inl .refl
    | loading _ _ ho' => exact (Work.not_offers_fail ho').elim
  | inner depth next ho ih =>
    rw [Work.Fine] at hw
    rw [Work.Failing, Work.Lost] at hn
    cases ho' with
    | answered => exact (Work.not_offers_done ho).elim
    | refused => exact (Work.not_offers_fail ho).elim
    | inner _ _ ho' =>
      rcases ih hw.1 hn ho' with hsame | ⟨both, hc⟩
      · cases hsame
        exact .inl .refl
      · exact .inr ⟨_, hc.bind depth next⟩
  | loading target quiet' ho ih =>
    rw [Work.Fine] at hw
    rw [Work.Failing, Work.Lost] at hn
    cases ho' with
    | loaded => exact (Work.not_offers_done ho).elim
    | unloaded => exact (Work.not_offers_fail ho).elim
    | loading _ _ ho' =>
      rcases ih hw hn ho' with hsame | ⟨both, hc⟩
      · cases hsame
        exact .inl .refl
      · exact .inr ⟨_, hc.load target⟩
  | empty _ _ _ _ _ hr =>
    cases ho' with
    | empty => exact .inl .refl
    | enter _ _ _ _ _ hr' => cases hr.symm.trans hr'
  | enter _ _ _ _ _ hr =>
    cases ho' with
    | empty _ _ _ _ _ hr' => cases hr.symm.trans hr'
    | enter => exact .inl .refl
  | @start quiet g f jobs i b hb hwait hfree =>
    rw [Work.Fine] at hw
    have ht : Work.Touch h quiet g f jobs none i .idle fun _ => b.start f :=
      .start hb hwait hfree rfl
    have hstart : (b.start f).error? = none := by cases b <;> rfl
    have hc := ht.commute_of_self hw.1 hn ho' fun hy => .inl (Work.Touch.self_of_start hb hwait hy)
    rwa [Work.resumed_eq fun _ => hstart] at hc
  | @job quiet g f jobs failure i b _ op k hb ho =>
    rw [Work.Fine] at hw
    have ht : Work.Touch h quiet g f jobs failure i op k := .job hb ho
    exact ht.commute_of_self hw.1 hn ho' fun hy => .inl (Work.Touch.self_of_job hb ho hy)
  | @work quiet g f jobs failure i w _ op k hi ho ih =>
    rw [Work.Fine] at hw
    have hlt : i < g.blocks.length := Nat.lt_of_not_le fun hle => by
      cases hi.symm.trans (hw.1.outside hle)
    have hj := hw.2 i
    rw [hi, Job.Fine] at hj
    have hnw : ¬ w.Failing := by
      intro hf
      refine hn ?_
      rw [Work.Failing, Work.Lost]
      refine .inr (.inr ⟨i, hlt, ?_⟩)
      rw [hi, Job.Lost]
      exact hf
    have ht : Work.Touch h quiet g f jobs failure i op fun r => .working (k r) := .work hi ho
    have hc := ht.commute_of_self hw.1 hn ho' fun hy => by
      obtain ⟨k', hk', rfl⟩ := hy.work_of_working hi ⟨_, _, _, ho⟩
      rcases ih hj hnw hk' with hsame | ⟨both, hboth⟩
      · cases hsame
        exact .inl .refl
      · have hc := hboth.level hlt hi hn
        rw [Work.resumed_eq fun _ => rfl, Work.resumed_eq fun _ => rfl]
        exact .inr ⟨_, hc⟩
    rwa [Work.resumed_eq fun _ => rfl] at hc
  | result _ f hr hf =>
    rw [Work.Fine] at hw
    exact .inl (Work.Closing.same_of_offers (.result hr hf) hw.1 ho')
  | abort _ g f e hnone =>
    rw [Work.Fine] at hw
    exact .inl (Work.Closing.same_of_offers (.abort e hnone) hw.1 ho')
  | cycle _ f hnone hu hf =>
    rw [Work.Fine] at hw
    exact .inl (Work.Closing.same_of_offers (.cycle hnone hu hf) hw.1 ho')

end Dataflow
