import Dataflow.Proofs.Run.Renaming

/-!
# The same work under other numbers

* `Work.Renamed`, `Job.Renamed`: what is under way, under other numbers;
* `Host.Steady`: a host that does not depend on the numbers;
* `Work.Matches`: a transition has its counterpart, in every context around the work;
* **`Work.Offers.renamed`**: the same can be done next, and it goes on in the same way.
-/

namespace Dataflow

open Run

variable {ρ : Renaming}

mutual

/-- Something under way, under other numbers. -/
inductive Work.Renamed (ρ : Renaming) : Work → Work → Prop where
  | script (depth : Nat) {s s' : Script Value} (h : Script.Alike ρ.link s s') :
    Work.Renamed ρ (.script depth s) (.script depth s')
  | bind (depth : Nat) {w w' : Work} {next next' : Except RunError Value → Script Value}
    (h : Work.Renamed ρ w w')
    (hn : ∀ x x', Agree (Value.Related ρ.link) x x' → Script.Alike ρ.link (next x) (next' x')) :
    Work.Renamed ρ (.bind depth w next) (.bind depth w' next')
  | boot {p p' : Program} (hg : p'.graph = p.graph) (hi : p.image.Renamed ρ p'.image) :
    Work.Renamed ρ (.boot p) (.boot p')
  | call (g : Graph) (unit depth : Nat) (parent : Option Nat) {args args' : List Value}
    (h : Value.AllRelated ρ.link args args') : Work.Renamed ρ (.call g unit depth parent args)
      (.call g (ρ.unit unit) depth (parent.map ρ.scope) args')
  | level (g : Graph) (f : Frame) {jobs jobs' : Nat → Job} (failure : Option RunError)
    (h : ∀ i, Job.Renamed ρ (jobs i) (jobs' i)) :
    Work.Renamed ρ (.level g f jobs failure) (.level g (ρ.frame f) jobs' failure)
  | load (target : String) (quiet : Bool) {w w' : Work} (h : Work.Renamed ρ w w') :
    Work.Renamed ρ (.load target quiet w) (.load target quiet w')

/-- What a block is doing, under other numbers. -/
inductive Job.Renamed (ρ : Renaming) : Job → Job → Prop where
  | waiting : Job.Renamed ρ .waiting .waiting
  | reading {args args' : List Value} (rest : List Instruction)
    (h : Value.AllRelated ρ.link args args') :
    Job.Renamed ρ (.reading args rest) (.reading args' rest)
  | selecting {v v' : Value} (name : ConstantId) (form : Form) (h : Value.Related ρ.link v v') :
    Job.Renamed ρ (.selecting v name form) (.selecting v' name form)
  | working {w w' : Work} (h : Work.Renamed ρ w w') : Job.Renamed ρ (.working w) (.working w')
  | storing {s s' : Slot} (h : s.Renamed ρ s') : Job.Renamed ρ (.storing s) (.storing s')
  | finished : Job.Renamed ρ .finished .finished
  | failed (e : RunError) : Job.Renamed ρ (.failed e) (.failed e)

end

/-- A host that does not depend on numbers. -/
structure Host.Steady (ρ : Renaming) (h : Host) : Prop where
  functions : ∀ {vs vs' : List Value}, Value.AllRelated ρ.link vs vs' → ∀ number : Nat,
    Script.Alike ρ.link (h.function number vs) (h.function number vs')
  value : ∀ {loader target v}, h.loader? = some loader → loader target = .value v →
    Value.Related ρ.link v v
  program : ∀ {loader target p quiet}, h.loader? = some loader →
    loader target = .program p quiet → p.image.Renamed ρ p.image

theorem Work.Renamed.fail (e : RunError) : (Work.fail e).Renamed ρ (Work.fail e) :=
  .script 0 (.fail e)

theorem Work.Renamed.after {α : Type} {R : α → α → Prop} {next next' : α → Work}
    (h : ∀ a a', R a a' → (next a).Renamed ρ (next' a')) {r r' : Except RunError α}
    (hr : Agree R r r') : (Work.after next r).Renamed ρ (Work.after next' r') := by
  cases hr with
  | ok ha => exact h _ _ ha
  | error e => exact .fail e

theorem Job.Renamed.after {α : Type} {R : α → α → Prop} {next next' : α → Job}
    (h : ∀ a a', R a a' → (next a).Renamed ρ (next' a')) {r r' : Except RunError α}
    (hr : Agree R r r') : (Job.after next r).Renamed ρ (Job.after next' r') := by
  cases hr with
  | ok ha => exact h _ _ ha
  | error e => exact .failed e

theorem Job.Renamed.error?_eq {j j' : Job} (h : j.Renamed ρ j') : j'.error? = j.error? := by
  cases h <;> rfl

theorem Job.Renamed.isRunning_eq {j j' : Job} (h : j.Renamed ρ j') :
    j'.isRunning = j.isRunning := by
  cases h <;> rfl

theorem Job.Renamed.isFinished_eq {j j' : Job} (h : j.Renamed ρ j') :
    j'.isFinished = j.isFinished := by
  cases h <;> rfl

theorem Job.Renamed.finished_iff {j j' : Job} (h : j.Renamed ρ j') :
    j' = .finished ↔ j = .finished := by
  cases h <;> simp

theorem Job.Renamed.waiting_iff {j j' : Job} (h : j.Renamed ρ j') :
    j' = .waiting ↔ j = .waiting := by
  cases h <;> simp

/-! ## Requests -/

theorem Host.Steady.called {h : Host} (hh : h.Steady ρ) (depth : Nat) {f f' : Function}
    {args args' : List Value} (hf : Function.Related ρ.link f f')
    (ha : Value.AllRelated ρ.link args args') :
    (h.called depth f args).Renamed ρ (h.called depth f' args') := by
  have hname := hf.name_eq
  cases hf with
  | native n =>
    unfold Host.called
    dsimp only
    rw [Signature.check_eq _ _ ha]
    split
    · refine .script depth ?_
      unfold Host.scriptOf
      cases n.body with
      | builtin b => exact b.script_related ha
      | host number => exact hh.functions ha number
    · exact .fail _
  | method m hi hv =>
    unfold Host.called
    dsimp only
    rw [Signature.check_eq _ _ ha, hname]
    split
    · exact .script depth (m.script_related hv ha (.inl inferInstance))
    · exact .fail _
  | @closure i i' c c' hi hc =>
    obtain rfl : c' = ρ.closure c := hc
    unfold Host.called
    dsimp only
    rw [hname, ha.length_eq, show (ρ.closure c).graph = c.graph from rfl]
    split
    · split
      · exact .fail _
      · exact .call c.graph c.unit (depth + 1) (some c.scope) ha
    · exact .fail _

theorem Host.Steady.loaded {h : Host} (hh : h.Steady ρ) {loader : String → Loaded}
    (hl : h.loader? = some loader) (target : String) :
    (Host.loaded target (loader target)).Renamed ρ (Host.loaded target (loader target)) := by
  cases ht : loader target with
  | value v => exact .script 0 (.done (hh.value hl ht))
  | failed message => exact .fail _
  | dropped => exact .fail _
  | program p quiet => exact .load target quiet (.boot rfl (hh.program hl ht))

/-! ## What can be done next -/

/-- What a block can do next, under other numbers. -/
theorem Job.Offers.renamed {f : Frame} {id : ValueId} {j j' : Job} {α : Type} {op : Op α}
    {k : Except RunError α → Job} (ho : j.Offers f id op k) (hj : j.Renamed ρ j') :
    ∃ op' k', j'.Offers (ρ.frame f) id op' k' ∧ op.Renamed ρ op' ∧
      (∀ r r', Agree (op.Alike ρ) r r' → (k r).Renamed ρ (k' r')) ∧
      (ρ.frame f = f → j' = j → op' = op ∧ k' = k) := by
  cases ho with
  | argument args a rest =>
    cases hj with
    | reading _ hs =>
      refine ⟨_, _, .argument _ a rest, .find f a, fun r r' hr => .after (fun v v' hv =>
        .reading rest (.cons hv hs)) hr, fun hf he => ?_⟩
      cases he
      rw [hf]
      exact ⟨rfl, rfl⟩
  | call args a rest =>
    cases hj with
    | reading _ hs =>
      refine ⟨_, _, .call _ a rest, .find f a, fun r r' hr => .after (fun v v' hv =>
        .working (.script f.depth (hv.apply (List.rel_reverse hs)))) hr, fun hf he => ?_⟩
      cases he
      rw [hf]
      exact ⟨rfl, rfl⟩
  | constant args c rest =>
    cases hj with
    | reading _ hs =>
      refine ⟨_, _, .constant _ c rest, .constant f c, fun r r' hr => ?_, fun hf he => ?_⟩
      · cases hr with
        | ok hv => exact .storing (.keep hv f.scope)
        | error e => exact .failed e
      · cases he
        rw [hf]
        exact ⟨rfl, rfl⟩
  | field args a name form rest =>
    cases hj with
    | reading _ hs =>
      refine ⟨_, _, .field _ a name form rest, .find f a, fun r r' hr => .after (fun v v' hv =>
        .selecting name form hv) hr, fun hf he => ?_⟩
      cases he
      rw [hf]
      exact ⟨rfl, rfl⟩
  | name v name form =>
    cases hj with
    | selecting _ _ hv =>
      refine ⟨_, _, .name _ name form, .fieldName f name, fun r r' hr => .after (fun text text' ht =>
        ?_) hr, fun hf he => ?_⟩
      · obtain rfl : text = text' := ht
        exact .working (.script f.depth (hv.select text form))
      · cases he
        rw [hf]
        exact ⟨rfl, rfl⟩
  | copy args a rest =>
    cases hj with
    | reading _ hs =>
      refine ⟨_, _, .copy _ a rest, .find f a, fun r r' hr => ?_, fun hf he => ?_⟩
      · cases hr with
        | ok hv => exact .storing (.keep hv f.scope)
        | error e => exact .failed e
      · cases he
        rw [hf]
        exact ⟨rfl, rfl⟩
  | stuck args hstuck =>
    cases hj with
    | reading _ hs =>
      exact ⟨_, _, .stuck _ hstuck, .idle, fun r r' hr => .failed _, fun hf he => ⟨rfl, rfl⟩⟩
  | done depth v =>
    cases hj with
    | working hw =>
      cases hw with
      | script _ hs =>
        cases hs with
        | done hv =>
          refine ⟨_, _, .done depth _, .idle, fun r r' hr => .storing (.keep hv f.scope),
            fun hf he => ?_⟩
          cases he
          rw [hf]
          exact ⟨rfl, rfl⟩
  | fail depth e =>
    cases hj with
    | working hw =>
      cases hw with
      | script _ hs =>
        cases hs with
        | fail =>
          exact ⟨_, _, .fail depth e, .idle, fun r r' hr => .failed e, fun hf he => ⟨rfl, rfl⟩⟩
  | put s =>
    cases hj with
    | storing hs =>
      refine ⟨_, _, .put _, .put f.scope id hs, fun r r' hr => .after (fun _ _ _ => .finished) hr,
        fun hf he => ?_⟩
      cases he
      have hscope : (ρ.frame f).scope = f.scope := by rw [hf]
      exact ⟨by rw [hscope], rfl⟩

section Levels

variable {g : Graph} {jobs jobs' : Nat → Job} {i : Nat}

theorem Graph.Free.renamed (h : ∀ i, (jobs i).Renamed ρ (jobs' i)) (hf : g.Free jobs i) :
    g.Free jobs' i := fun j hj => ((h j).finished_iff).mpr (hf j hj)

theorem Graph.unfinished_renamed (g : Graph) (h : ∀ i, (jobs i).Renamed ρ (jobs' i)) :
    g.unfinished jobs' = g.unfinished jobs := by
  unfold Graph.unfinished
  refine List.filter_congr fun i _ => ?_
  rw [(h i).isFinished_eq]

theorem Job.Renamed.update (h : ∀ i, (jobs i).Renamed ρ (jobs' i)) {x x' : Job}
    (hx : x.Renamed ρ x') (j : Nat) :
    (Function.update jobs i x j).Renamed ρ (Function.update jobs' i x' j) := by
  by_cases hj : j = i
  · rw [hj, Function.update_self, Function.update_self]
    exact hx
  · rw [Function.update_of_ne hj, Function.update_of_ne hj]
    exact h j

theorem Block.start_renamed (f : Frame) (b : Block) :
    (b.start f).Renamed ρ (b.start (ρ.frame f)) := by
  cases b with
  | function id body => exact .storing (.declared body f.unit id)
  | steps id is => exact .reading is .nil

end Levels

/-- What is done next in some work can be done in another under other numbers. If the work is the
same, so is what is done. -/
def Work.Matches (ρ : Renaming) (h : Host) (quiet : Bool) (w w' : Work) {α : Type} (op : Op α)
    (k : Except RunError α → Work) : Prop :=
  ∃ op' k', Work.Offers h quiet w' op' k' ∧ op.Renamed ρ op' ∧
    (∀ r r', Agree (op.Alike ρ) r r' → (k r).Renamed ρ (k' r')) ∧ (w' = w → op' = op ∧ k' = k)

namespace Work.Matches

variable {h : Host} {quiet : Bool} {α : Type} {op : Op α}

/-- A script goes on. -/
theorem script (hh : h.Steady ρ) {depth : Nat} {s s' : Script Value} {k : Except RunError α → Work}
    (ho : Work.Offers h quiet (.script depth s) op k) (hs : Script.Alike ρ.link s s') :
    Work.Matches ρ h quiet (.script depth s) (.script depth s') op k := by
  cases ho with
  | print _ text next =>
    cases hs with
    | print _ hn =>
      refine ⟨_, _, .print depth text _, .print text, fun _ _ _ => .script depth hn, fun he => ?_⟩
      cases he
      exact ⟨rfl, rfl⟩
  | mute _ text next =>
    cases hs with
    | print _ hn =>
      refine ⟨_, _, .mute depth text _, .idle, fun _ _ _ => .script depth hn, fun he => ?_⟩
      cases he
      exact ⟨rfl, rfl⟩
  | mint =>
    cases hs with
    | mint hn =>
      refine ⟨_, _, .mint quiet depth _, .mint, fun r r' hr => .after (fun i i' hi =>
        .script depth (hn i i' hi)) hr, fun he => ?_⟩
      cases he
      exact ⟨rfl, rfl⟩
  | depth =>
    cases hs with
    | depth hn =>
      refine ⟨_, _, .depth quiet depth _, .idle, fun _ _ _ => .script depth (hn depth),
        fun he => ?_⟩
      cases he
      exact ⟨rfl, rfl⟩
  | ask =>
    cases hs with
    | ask hr hn =>
      cases hr with
      | call hf ha =>
        refine ⟨_, _, .ask quiet depth _ _ _, .idle, fun _ _ _ =>
          .bind depth (hh.called depth hf ha) hn, fun he => ?_⟩
        cases he
        exact ⟨rfl, rfl⟩
  | noLoader _ _ target _ hl =>
    cases hs with
    | ask hr hn =>
      cases hr with
      | load =>
        refine ⟨_, _, .noLoader quiet depth target _ hl, .idle, fun _ _ _ =>
          .bind depth (.fail _) hn, fun he => ?_⟩
        cases he
        exact ⟨rfl, rfl⟩
  | load _ _ target _ hl =>
    cases hs with
    | ask hr hn =>
      cases hr with
      | load =>
        refine ⟨_, _, .load quiet depth target _ hl, .note target, fun _ _ _ =>
          .bind depth (hh.loaded hl target) hn, fun he => ?_⟩
        cases he
        exact ⟨rfl, rfl⟩

section Nested

variable {w w' : Work} {k : Except RunError α → Work}

/-- A request that is being answered goes on. -/
theorem inner (depth : Nat) {next next' : Except RunError Value → Script Value}
    (hw : Work.Matches ρ h quiet w w' op k)
    (hn : ∀ x x', Agree (Value.Related ρ.link) x x' → Script.Alike ρ.link (next x) (next' x')) :
    Work.Matches ρ h quiet (.bind depth w next) (.bind depth w' next') op
      fun r => .bind depth (k r) next := by
  obtain ⟨op', k', ho, hop, hk, hsame⟩ := hw
  refine ⟨op', _, .inner depth _ ho, hop, fun r r' hr => .bind depth (hk r r' hr) hn, fun he => ?_⟩
  cases he
  obtain ⟨rfl, rfl⟩ := hsame rfl
  exact ⟨rfl, rfl⟩

theorem loading (target : String) (quiet' : Bool) (hw : Work.Matches ρ h (quiet || quiet') w w' op k) :
    Work.Matches ρ h quiet (.load target quiet' w) (.load target quiet' w') op
      fun r => .load target quiet' (k r) := by
  obtain ⟨op', k', ho, hop, hk, hsame⟩ := hw
  refine ⟨op', _, .loading target quiet' ho, hop, fun r r' hr => .load target quiet' (hk r r' hr),
    fun he => ?_⟩
  cases he
  obtain ⟨rfl, rfl⟩ := hsame rfl
  exact ⟨rfl, rfl⟩

end Nested

section Level

variable {g : Graph} {f : Frame} {jobs jobs' : Nat → Job} {i : Nat} {failure : Option RunError}
  (hjobs : ∀ i, (jobs i).Renamed ρ (jobs' i))
include hjobs

/-- A block of a graph under way goes on. -/
theorem job {b : Block} {k : Except RunError α → Job} (hb : g.blocks[i]? = some b)
    (hj : (jobs i).Offers f b.id op k) :
    Work.Matches ρ h quiet (.level g f jobs failure) (.level g (ρ.frame f) jobs' failure) op
      fun r => .level g f (Function.update jobs i (k r)) (failure.or (k r).error?) := by
  obtain ⟨op', k', ho', hop, hk, hsame⟩ := hj.renamed (hjobs i)
  refine ⟨op', _, .job quiet failure hb ho', hop, fun r r' hr => ?_, fun he => ?_⟩
  · rw [(hk r r' hr).error?_eq]
    exact .level g f _ fun j => .update hjobs (hk r r' hr) j
  · simp only [Work.level.injEq, true_and, and_true] at he
    obtain ⟨hframe, rfl⟩ := he
    obtain ⟨rfl, rfl⟩ := hsame hframe rfl
    rw [hframe]
    exact ⟨rfl, rfl⟩

/-- The work of a block goes on. -/
theorem work {w : Work} {k : Except RunError α → Work} (hj : jobs i = .working w)
    (ih : ∀ {w'}, w.Renamed ρ w' → Work.Matches ρ h quiet w w' op k) :
    Work.Matches ρ h quiet (.level g f jobs failure) (.level g (ρ.frame f) jobs' failure) op
      fun r => .level g f (Function.update jobs i (.working (k r))) failure := by
  have hi := hjobs i
  rw [hj] at hi
  generalize hj' : jobs' i = x at hi
  cases hi with
  | working hi =>
    obtain ⟨op', k', ho', hop, hk, hsame⟩ := ih hi
    refine ⟨op', _, .work g (ρ.frame f) failure hj' ho', hop, fun r r' hr =>
      .level g f failure fun j => .update hjobs (.working (hk r r' hr)) j, fun he => ?_⟩
    simp only [Work.level.injEq, true_and, and_true] at he
    obtain ⟨hframe, rfl⟩ := he
    rw [hj] at hj'
    cases hj'
    obtain ⟨rfl, rfl⟩ := hsame rfl
    rw [hframe]
    exact ⟨rfl, rfl⟩

theorem start {b : Block} (hb : g.blocks[i]? = some b) (hj : jobs i = .waiting)
    (hf : g.Free jobs i) :
    Work.Matches ρ h quiet (.level g f jobs none) (.level g (ρ.frame f) jobs' none) .idle
      fun _ => .level g f (Function.update jobs i (b.start f)) none := by
  refine ⟨_, _, .start quiet (ρ.frame f) hb ((hjobs i).waiting_iff.mpr hj) (hf.renamed hjobs),
    .idle, fun _ _ _ => .level g f none fun j => .update hjobs (b.start_renamed f) j, fun he => ?_⟩
  simp only [Work.level.injEq, true_and, and_true] at he
  obtain ⟨hframe, rfl⟩ := he
  rw [hframe]
  exact ⟨rfl, rfl⟩

theorem result {id : ValueId} (hr : g.result? = some id) (hf : g.unfinished jobs = []) :
    Work.Matches ρ h quiet (.level g f jobs none) (.level g (ρ.frame f) jobs' none)
      (.result f.scope id) (Work.after fun v => .script f.depth (.done v)) := by
  refine ⟨_, _, .result quiet (ρ.frame f) hr ((g.unfinished_renamed hjobs).trans hf),
    .result f.scope id, fun r r' hr => .after (fun v v' hv => .script f.depth (.done hv)) hr,
    fun he => ?_⟩
  simp only [Work.level.injEq, true_and, and_true] at he
  rw [he.1]
  exact ⟨rfl, rfl⟩

theorem abort (e : RunError) (hn : ∀ i, (jobs i).isRunning = false) :
    Work.Matches ρ h quiet (.level g f jobs (some e)) (.level g (ρ.frame f) jobs' (some e)) .idle
      fun _ => .fail e :=
  ⟨_, _, .abort quiet g (ρ.frame f) e fun i => (hjobs i).isRunning_eq.trans (hn i), .idle,
    fun _ _ _ => .fail e, fun _ => ⟨rfl, rfl⟩⟩

theorem cycle (hn : ∀ i, (jobs i).isRunning = false) (hu : g.unfinished jobs ≠ [])
    (hf : ∀ i < g.blocks.length, jobs i = .waiting → ¬ g.Free jobs i) :
    Work.Matches ρ h quiet (.level g f jobs none) (.level g (ρ.frame f) jobs' none) .idle
      fun _ => .fail (.cycle (g.unfinished jobs).length) := by
  have hunfinished := g.unfinished_renamed hjobs
  refine ⟨_, _, .cycle quiet (ρ.frame f) (fun i => (hjobs i).isRunning_eq.trans (hn i))
    (by rwa [hunfinished]) fun i hi hw hfree => ?_, .idle, fun _ _ _ => ?_, fun he => ?_⟩
  · refine hf i hi ((hjobs i).waiting_iff.mp hw) fun j hj => ?_
    exact (hjobs j).finished_iff.mp (hfree j hj)
  · rw [hunfinished]
    exact .fail _
  · rw [hunfinished]
    exact ⟨rfl, rfl⟩

end Level

end Work.Matches

/-- What can be done next under other numbers. -/
theorem Work.Offers.renamed {h : Host} (hh : h.Steady ρ) {quiet : Bool} {w w' : Work} {α : Type}
    {op : Op α} {k : Except RunError α → Work} (ho : Work.Offers h quiet w op k)
    (hw : w.Renamed ρ w') : Work.Matches ρ h quiet w w' op k := by
  induction ho generalizing w' with
  | print depth text next =>
    cases hw with
    | script _ hs => exact .script hh (.print depth text next) hs
  | mute depth text next =>
    cases hw with
    | script _ hs => exact .script hh (.mute depth text next) hs
  | mint quiet depth next =>
    cases hw with
    | script _ hs => exact .script hh (.mint quiet depth next) hs
  | depth quiet depth next =>
    cases hw with
    | script _ hs => exact .script hh (.depth quiet depth next) hs
  | ask quiet depth f args next =>
    cases hw with
    | script _ hs => exact .script hh (.ask quiet depth f args next) hs
  | noLoader quiet depth target next hl =>
    cases hw with
    | script _ hs => exact .script hh (.noLoader quiet depth target next hl) hs
  | load quiet depth target next hl =>
    cases hw with
    | script _ hs => exact .script hh (.load quiet depth target next hl) hs
  | answered quiet depth depth' v next =>
    cases hw with
    | bind _ hi hn =>
      cases hi with
      | script _ hs =>
        cases hs with
        | done hv =>
          refine ⟨_, _, .answered quiet depth depth' _ _, .idle, fun _ _ _ =>
            .script depth (hn _ _ (.ok hv)), fun he => ?_⟩
          cases he
          exact ⟨rfl, rfl⟩
  | refused quiet depth depth' e next =>
    cases hw with
    | bind _ hi hn =>
      cases hi with
      | script _ hs =>
        cases hs with
        | fail =>
          refine ⟨_, _, .refused quiet depth depth' e _, .idle, fun _ _ _ =>
            .script depth (hn _ _ (.error e)), fun he => ?_⟩
          cases he
          exact ⟨rfl, rfl⟩
  | inner depth next ho ih =>
    cases hw with
    | bind _ hi hn => exact (ih hi).inner depth hn
  | boot quiet p =>
    cases hw with
    | @boot _ p' hg hi =>
      refine ⟨_, _, .boot quiet p', .addImage hi, fun r r' hr => .after (fun u u' hu => ?_) hr,
        fun he => ?_⟩
      · obtain rfl : u' = ρ.unit u := hu
        rw [hg]
        exact .call p.graph u 0 none .nil
      · cases he
        exact ⟨rfl, rfl⟩
  | empty quiet unit depth parent args hr =>
    cases hw with
    | call g _ _ _ ha =>
      exact ⟨_, _, .empty quiet _ depth _ _ hr, .idle, fun _ _ _ => .fail _, fun he => ⟨rfl, rfl⟩⟩
  | @enter quiet g unit depth parent args _ hr =>
    cases hw with
    | call _ _ _ _ ha =>
      refine ⟨_, _, .enter quiet _ depth _ _ hr, .enter g unit depth parent ha, fun r r' hr =>
        .after (fun f f' hf => ?_) hr, fun he => ?_⟩
      · obtain rfl : f' = ρ.frame f := hf
        exact .level g f none fun _ => .waiting
      · simp only [Work.call.injEq, true_and] at he
        obtain ⟨hunit, hparent, rfl⟩ := he
        rw [hunit, hparent]
        exact ⟨rfl, rfl⟩
  | start _ _ hb hj hf =>
    cases hw with
    | level _ _ _ hjobs => exact .start hjobs hb hj hf
  | job _ _ hb hj =>
    cases hw with
    | level _ _ _ hjobs => exact .job hjobs hb hj
  | work _ _ _ hj _ ih =>
    cases hw with
    | level _ _ _ hjobs => exact .work hjobs hj ih
  | result _ _ hr hf =>
    cases hw with
    | level _ _ _ hjobs => exact .result hjobs hr hf
  | abort _ _ _ e hn =>
    cases hw with
    | level _ _ _ hjobs => exact .abort hjobs e hn
  | cycle _ _ hn hu hf =>
    cases hw with
    | level _ _ _ hjobs => exact .cycle hjobs hn hu hf
  | loaded quiet quiet' target depth v =>
    cases hw with
    | load _ _ hi =>
      cases hi with
      | script _ hs =>
        cases hs with
        | done hv =>
          refine ⟨_, _, .loaded quiet quiet' target depth _, .idle, fun _ _ _ =>
            .script depth (.done hv), fun he => ?_⟩
          cases he
          exact ⟨rfl, rfl⟩
  | unloaded quiet quiet' target depth e =>
    cases hw with
    | load _ _ hi =>
      cases hi with
      | script _ hs =>
        cases hs with
        | fail =>
          exact ⟨_, _, .unloaded quiet quiet' target depth e, .idle, fun _ _ _ => .fail _,
            fun he => ⟨rfl, rfl⟩⟩
  | loading target quiet' ho ih =>
    cases hw with
    | load _ _ hi => exact (ih hi).loading target quiet'

end Dataflow
