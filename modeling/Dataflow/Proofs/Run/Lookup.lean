import Dataflow.Proofs.Graph.Levels
import Dataflow.Proofs.Run.Sequential
import Dataflow.Proofs.Run.Surroundings
import Dataflow.Proofs.Run.Written

/-!
# No value is read before it is written

Whatever the order in which the blocks of a program run, each operand is found in an activation of
the level it belongs to, and its value is there. So nothing can be unavailable but a built-in value
that the environment does not have, and every value is written once and in its own activation.

* `Work.Runs`: a graph is under way;
* **`Program.operands_written`**: every operand that is looked up has been written.
-/

namespace Dataflow

open Run

theorem Graph.inherited_allFit : Inherited AllFit :=
  fun hg hb l hl => hg l (mem_levels_of_body hb hl)

/-- A graph is under way in something. -/
inductive Work.Runs : Work → Graph → Frame → (Nat → Job) → Prop where
  | here (g : Graph) (f : Frame) (jobs : Nat → Job) (failure : Option RunError) :
    Runs (.level g f jobs failure) g f jobs
  | bind {w : Work} {g : Graph} {f : Frame} {jobs : Nat → Job} (depth : Nat)
    (next : Except RunError Value → Script Value) (h : Runs w g f jobs) :
    Runs (.bind depth w next) g f jobs
  | load {w : Work} {g : Graph} {f : Frame} {jobs : Nat → Job} (target : String) (quiet : Bool)
    (h : Runs w g f jobs) : Runs (.load target quiet w) g f jobs
  | work {w : Work} {g g' : Graph} {f f' : Frame} {jobs jobs' : Nat → Job} {i : Nat}
    (failure : Option RunError) (hw : jobs' i = .working w) (h : Runs w g f jobs) :
    Runs (.level g' f' jobs' failure) g f jobs

theorem Work.Runs.levelFine {P : Graph → Prop} {sites : Nat → Site} {m : Machine} {w : Work}
    {g : Graph} {f : Frame} {jobs : Nat → Job} (h : w.Runs g f jobs) (hw : w.Fine P sites m) :
    LevelFine sites m g f jobs := by
  induction h with
  | here =>
    rw [Work.Fine] at hw
    exact hw.1
  | bind _ _ _ ih =>
    rw [Work.Fine] at hw
    exact ih hw.1
  | load _ _ _ ih =>
    rw [Work.Fine] at hw
    exact ih hw
  | @work w _ _ _ _ _ jobs' i _ hi _ ih =>
    rw [Work.Fine] at hw
    have hj := hw.2 i
    rw [hi, Job.Fine] at hj
    exact ih hj

/-- The sequential run of a program is one of its interleaved runs. -/
theorem Program.steps_of_run {h : Host} {p : Program} {fuel : Nat} {m m' : Machine}
    {r : Except RunError Value} (hr : Yields (p.run (h.answer fuel 0) m) r m') :
    ∃ depth, Work.Steps h false (.boot p, m) (.ended depth r, m') :=
  Program.does (h.answers_answer fuel 0) p false #[] m r m' hr

/-- A program about to be run, on a machine on which all values may go around. -/
structure Program.Startable (h : Host) (sites : Nat → Site) (m : Machine) (p : Program) : Prop where
  build : Graph.build p.code.instructions = .ok p.graph
  fits : p.graph.AllFit
  environment : ∀ {id v}, p.environment.get? id = some v → v.Fine sites m
  host : h.Fine Graph.AllFit sites m
  machine : m.Fine sites
  within : Within Graph.AllFit sites m

theorem Program.Startable.fine {h : Host} {sites : Nat → Site} {m : Machine} {p : Program}
    (hp : p.Startable h sites m) : State.Fine Graph.AllFit h sites (.boot p, m) := by
  obtain ⟨hbuilt, hfirst, hparams⟩ := Graph.built_of_build hp.build
  refine ⟨hp.host, hp.machine, ?_, ?_, hp.within⟩
  · rw [Work.Fine]
    exact ⟨hbuilt, hfirst, hparams, hp.fits, hp.environment⟩
  · rw [Work.Apart]
    trivial

/-- However the blocks of a program and of all functions it calls are interleaved, an operand that
does not name a built-in value is found, in an activation of the innermost level around the block
that does not start above its number, and has been written. An operation fails only for a built-in
value that is not there or a constant that is not right; so no value is written twice or outside the
activation it belongs to. The sequential run is one of these runs. -/
theorem Program.operands_written {h : Host} {sites₀ : Nat → Site} {m₀ : Machine} {p : Program}
    (hp : p.Startable h sites₀ m₀) :
    (∀ {fuel r m'}, Yields (p.run (h.answer fuel 0) m₀) r m' →
      ∃ depth, Work.Steps h false (.boot p, m₀) (.ended depth r, m')) ∧
    ∀ {w m}, Work.Steps h false (.boot p, m₀) (w, m) → ∃ sites, m.Fine sites ∧
      (∀ {g f jobs}, w.Runs g f jobs → ∃ outer, (sites f.scope).levels = g :: outer) ∧
      (∀ {f id k}, Work.Offers h false w (.find f id) k → 0 ≤ id → Found sites m id f.scope) ∧
      ∀ {α : Type} {op : Op α} {k e m'}, Work.Offers h false w op k →
        Yields (op.run m) (.error e) m' → op.Declines m e := by
  refine ⟨Program.steps_of_run, fun {w m} hs => ?_⟩
  obtain ⟨sites, -, hc⟩ := hp.fine.steps Graph.inherited_allFit Graph.AllFit.fits hs
  refine ⟨sites, hc.machine, fun hr => (hr.levelFine hc.work).levels, fun ho h0 => ?_,
    fun {α op k e m'} ho hr => ?_⟩
  · exact (ho.safe hc.machine hc.work).2 h0
  · have hfits := hc.fits Graph.inherited_allFit Graph.AllFit.fits ho
    rcases hc.run_cases Graph.inherited_allFit ho hfits with
      ⟨a, m', sites', hrun, -⟩ | ⟨e, hrun, he, -⟩
    · rw [hrun] at hr
      cases hr
    · rw [hrun] at hr
      cases hr
      exact he

theorem Environment.get?_empty (id : ValueId) : Environment.empty.get? id = none := by
  unfold Environment.get? Environment.entry? Environment.empty
  cases Environment.indexOf? id <;> rfl

/-- Whether a value is kept that is equal to another one. -/
def Slot.holds (w : Value) : Slot → Bool
  | .value v => v.hostEq w
  | .declared .. => false

theorem Slot.holds_int_iff {s : Slot} {n : Int64} :
    s.holds (.int n) = true ↔ s = .value (.int n) := by
  cases s with
  | value v => simp [holds, Value.hostEq_int_iff]
  | declared graph unit id => simp [holds]

/-- The unit of the statements `a = 1`, `fn f(): a` and `call(f)`, where `call` is a function of the
host. -/
def Code.copying : Code :=
  ⟨.zero, [.ofInt 1], [.constant 0, .enter 0, .copy 1, .leave, .argument 0, .call (-11)]⟩

/-- The graph of these statements. -/
def Graph.copying : Graph :=
  ⟨0, 0, [.function 0 ⟨2, 0, [.steps 2 [.copy 1]], [[]]⟩, .steps 1 [.constant 0],
    .steps 2 [.argument 0, .call (-11)]], [[2], [0], []]⟩

/-- The program of these statements. -/
def Program.copying : Program := ⟨.copying, .copying, .offering⟩

theorem Graph.build_copying : Graph.build Code.copying.instructions = .ok .copying := by cbv

theorem Graph.allFit_copying : Graph.copying.AllFit := by
  simp [copying, AllFit, levels, Block.levels, Block.allLevels, Fits, Level.slotCount]

theorem Program.startable_copying (options : RunOptions) (sites : Nat → Site) :
    Program.copying.Startable (.offering options) sites .primed :=
  ⟨Graph.build_copying, Graph.allFit_copying, Environment.offering_fine sites (by decide),
    Host.offering_fine _ _ _ _, Machine.primed_fine sites, fun _ hs => absurd hs (Nat.not_lt_zero _)⟩

/-- The function is entered second, finds `a` in the activation around its own, and copies it. -/
theorem Program.run_copying : ∃ m,
    Program.copying.run ((Host.offering ⟨64, .sequential⟩).answer 2 0) .primed = .ok (.int 1) m ∧
      m.holder? 1 1 = some 0 ∧ m.slot? 0 1 = some (.value (.int 1)) ∧
      m.slot? 1 2 = some (.value (.int 1)) := by
  have h : okWith (fun v m => v.hostEq (.int 1) && m.holder? 1 1 == some 0 &&
      (m.slot? 0 1).any (·.holds (.int 1)) && (m.slot? 1 2).any (·.holds (.int 1)))
      (Program.copying.run ((Host.offering ⟨64, .sequential⟩).answer 2 0) .primed) = true := by
    decide +kernel
  obtain ⟨v, m, hrun, hm⟩ := exists_of_okWith h
  simp only [Bool.and_eq_true, Value.hostEq_int_iff, beq_iff_eq, Option.any_eq_true,
    Slot.holds_int_iff] at hm
  obtain ⟨⟨⟨rfl, hholder⟩, _, ha, rfl⟩, _, hb, rfl⟩ := hm
  exact ⟨m, hrun, hholder, ha, hb⟩

/-- Whatever the order of the blocks, every operand is there when it is looked up. One of the runs
ends with the value of `a`, which the function has copied out of the activation around its own. -/
theorem Program.operands_written_copying :
    (∀ {w m}, Work.Steps (.offering ⟨64, .sequential⟩) false (.boot .copying, .primed) (w, m) →
      ∃ sites, m.Fine sites ∧ ∀ {f id k},
        Work.Offers (.offering ⟨64, .sequential⟩) false w (.find f id) k → 0 ≤ id →
          Found sites m id f.scope) ∧
    ∃ depth m, Work.Steps (.offering ⟨64, .sequential⟩) false (.boot .copying, .primed)
        (.ended depth (.ok (.int 1)), m) ∧
      m.holder? 1 1 = some 0 ∧ m.slot? 0 1 = some (.value (.int 1)) ∧
      m.slot? 1 2 = some (.value (.int 1)) := by
  obtain ⟨hruns, hwritten⟩ :=
    Program.operands_written (Program.startable_copying ⟨64, .sequential⟩ fun _ => default)
  obtain ⟨m, hrun, hm⟩ := Program.run_copying
  obtain ⟨depth, hsteps⟩ := hruns (.of_ok hrun)
  refine ⟨fun hs => ?_, depth, m, hsteps, hm⟩
  obtain ⟨sites, hfine, -, hfound, -⟩ := hwritten hs
  exact ⟨sites, hfine, hfound⟩

end Dataflow
