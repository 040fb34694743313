import Dataflow.Proofs.Graph.Peel
import Dataflow.Proofs.Run.Interleave

/-!
# The sequential run is one of the interleaved runs

Blocks that run one after the other, in the order in which they are peeled, never wait for a block
that has not ended.

* `Run.Blind`: operations that do not see what has been printed;
* `Work.Does`: something under way can do what a computation does;
* `Graph.does`, `Host.answers_answer`: graphs and requests;
* **`Program.does`**: programs.
-/

namespace Dataflow

open Run

/-! ## Output that is not seen -/

/-- The machine with other output. -/
def Machine.withPrinted (m : Machine) (printed : Array String) : Machine := { m with printed }

namespace Run

variable {α β : Type}

/-- The same result on a machine with other output. -/
def reprint (printed : Array String) : EStateM.Result Stop Machine α → EStateM.Result Stop Machine α
  | .ok a m => .ok a (m.withPrinted printed)
  | .error e m => .error e (m.withPrinted printed)

/-- A computation that neither prints nor sees what has been printed. -/
def Blind (r : Run α) : Prop := ∀ m printed, r (m.withPrinted printed) = reprint printed (r m)

namespace Blind

theorem pure (a : α) : Blind (pure a) := fun _ _ => rfl

theorem fail (e : RunError) : Blind (fail e : Run α) := fun _ _ => rfl

theorem malformed (e : Malformation) : Blind (malformed e : Run α) := fun _ _ => rfl

theorem fresh : Blind fresh := fun _ _ => rfl

theorem bind {r : Run α} {f : α → Run β} (hr : Blind r) (hf : ∀ a, Blind (f a)) :
    Blind (r >>= f) := by
  intro m printed
  rw [bind_apply, bind_apply, hr m printed]
  cases r m with
  | ok a m' => exact hf a m' printed
  | error e m' => rfl

theorem get {f : Machine → Run β} (hf : ∀ m, Blind (f m))
    (hp : ∀ m printed, f (m.withPrinted printed) = f m) : Blind (get >>= f) := by
  intro m printed
  rw [bind_ok (show (MonadState.get : Run Machine) (m.withPrinted printed) = .ok _ _ from rfl),
    bind_ok (show (MonadState.get : Run Machine) m = .ok m m from rfl), hp]
  exact hf m m printed

theorem read (scope : Nat) (id : ValueId) : Blind (read scope id) := by
  refine get (fun m => ?_) fun m printed => rfl
  split
  · exact pure none
  · exact pure _
  · exact bind fresh fun _ => pure _

theorem put (scope : Nat) (id : ValueId) (s : Slot) : Blind (put scope id s) := by
  intro m printed
  unfold Run.put
  have ha : (m.withPrinted printed).activations = m.activations := rfl
  have hs : (m.withPrinted printed).slot? scope id = m.slot? scope id := rfl
  rw [ha, hs]
  cases (m.activations[scope]?).bind (·.offset? id) with
  | none => rfl
  | some offset =>
    dsimp only
    split <;> rfl

theorem holder?_withPrinted (m : Machine) (printed : Array String) (id : ValueId) (scope : Nat) :
    (m.withPrinted printed).holder? id scope = m.holder? id scope := by
  apply Machine.holder?_congr
  exact fun _ => rfl

theorem find (scope : Nat) (id : ValueId) : Blind (find scope id) := by
  refine get (fun m => ?_) fun m printed => ?_
  · split
    · exact fail _
    · refine bind (read _ _) fun v => ?_
      cases v with
      | some v => exact pure v
      | none => exact fail _
  · rw [holder?_withPrinted]

theorem image {f : Frame} {k : Image → Run β} (hk : ∀ i, Blind (k i)) : Blind (f.image >>= k) := by
  intro m printed
  rw [bind_ok (show f.image (m.withPrinted printed) = .ok _ _ from rfl),
    bind_ok (show f.image m = .ok _ m from rfl)]
  exact hk _ m printed

theorem constant (f : Frame) (id : ConstantId) : Blind (f.constant id) := by
  refine image fun i => ?_
  split
  · exact malformed _
  · split
    · exact pure _
    · exact malformed _

theorem bindArguments (scope : Nat) (id : ValueId) (args : List Value) :
    Blind (bindArguments scope id args) := by
  induction args generalizing id with
  | nil => exact pure ()
  | cons v vs ih => exact bind (put scope id _) fun _ => ih (id + 1)

end Blind

end Run

/-- Whether an operation prints. -/
def Op.prints {α : Type} : Op α → Bool
  | print _ => true
  | _ => false

/-- Only printing touches what has been printed. -/
theorem Op.blind {α : Type} {op : Op α} (h : op.prints = false) : Blind op.run := by
  cases op with
  | idle => exact .pure ()
  | find f id =>
    show Blind (f.find id)
    unfold Frame.find
    split
    · refine .image fun i => ?_
      split
      · exact .pure _
      · exact .fail _
    · exact .find _ _
  | constant f id => exact .constant f id
  | fieldName f id =>
    refine .bind (.constant f id) fun v => ?_
    split
    · exact .pure _
    · exact .fail _
  | mint => exact .fresh
  | print text => cases h
  | note target => exact fun _ _ => rfl
  | addImage image => exact fun _ _ => rfl
  | enter g unit depth parent args =>
    refine .bind (r := Run.enter parent g.first g.slotCount) (fun _ _ => rfl) fun scope => ?_
    exact .bind (.bindArguments scope g.first args) fun _ => .pure _
  | put scope id s => exact .put scope id s
  | result scope id =>
    refine .bind (.read scope id) fun v => ?_
    cases v with
    | some v => exact .pure v
    | none => exact .fail _

/-! ## Steps in their places -/

/-- The machine in a place where output is kept or not. -/
def Machine.shown (quiet : Bool) (printed : Array String) (m : Machine) : Machine :=
  if quiet then m.withPrinted printed else m

section Places

variable {h : Host} {quiet : Bool} {printed : Array String} {m m' : Machine}

theorem Op.yields_shown {α : Type} {op : Op α} (hp : op.prints = false) {r : Except RunError α}
    (hr : Yields (op.run m) r m') :
    Yields (op.run (m.shown quiet printed)) r (m'.shown quiet printed) := by
  cases quiet with
  | false => exact hr
  | true =>
    show Yields (op.run (m.withPrinted printed)) r (m'.withPrinted printed)
    rw [Op.blind hp]
    generalize op.run m = x at hr
    cases hr with
    | ok a => exact .ok a _
    | error e => exact .error e _

namespace Work.Steps

theorem op {w w' : Work} {α : Type} {op : Op α} {k : Except RunError α → Work}
    {r : Except RunError α} (ho : Work.Offers h quiet w op k) (hp : op.prints = false)
    (hr : Yields (op.run m) r m') (hw : k r = w') :
    Work.Steps h quiet (w, m.shown quiet printed) (w', m'.shown quiet printed) := by
  subst hw
  exact .single (.intro ho (Op.yields_shown hp hr))

theorem idle {w : Work} {k : Except RunError Unit → Work}
    (ho : Work.Offers h quiet w .idle k) (m : Machine) :
    Work.Steps h quiet (w, m) (k (.ok ()), m) :=
  .single (.intro ho (.ok () m))

/-- Steps in one place of a tree are steps of the tree. -/
theorem inside {quiet' : Bool} {F : Work → Work}
    (hF : ∀ {w : Work} {α : Type} {op : Op α} {k : Except RunError α → Work},
      Work.Offers h quiet' w op k → Work.Offers h quiet (F w) op fun r => F (k r))
    {w w' : Work} (hs : Work.Steps h quiet' (w, m) (w', m')) :
    Work.Steps h quiet (F w, m) (F w', m') := by
  have hstep {c c' : Work × Machine} (hs : Work.Step h quiet' c c') :
      Work.Step h quiet (F c.1, c.2) (F c'.1, c'.2) := by
    cases hs with
    | intro ho hr => exact .intro (hF ho) hr
  exact Relation.ReflTransGen.lift (fun c : Work × Machine => (F c.1, c.2)) (fun _ _ => hstep)
    _ _ hs

end Work.Steps

end Places

/-- Something that has ended. -/
def Work.ended (depth : Nat) : Except RunError Value → Work
  | .ok v => script depth (.done v)
  | .error e => script depth (.fail e)

/-- Something under way can do what a computation does. -/
def Work.Does (h : Host) (w : Work) (x : Run Value) : Prop :=
  ∀ quiet printed m r m', Yields (x m) r m' → ∃ depth,
    Work.Steps h quiet (w, m.shown quiet printed) (.ended depth r, m'.shown quiet printed)

/-- Requests are answered as a computation does. -/
def Host.Answers (h : Host) (depth : Nat) (answer : Request → Run Value) : Prop :=
  ∀ request next quiet printed m r m', Yields (answer request m) r m' → ∃ depth',
    Work.Steps h quiet (.script depth (.ask request next), m.shown quiet printed)
      (.bind depth (.ended depth' r) next, m'.shown quiet printed)

/-! ## Scripts -/

theorem Script.does {h : Host} {depth : Nat} {answer : Request → Run Value}
    (ha : h.Answers depth answer) (s : Script Value) :
    (Work.script depth s).Does h (s.run answer depth) := by
  induction s with
  | done v =>
    intro quiet printed m r m' hr
    cases hr
    exact ⟨depth, .refl⟩
  | fail e =>
    intro quiet printed m r m' hr
    cases hr
    exact ⟨depth, .refl⟩
  | ask request next ih =>
    intro quiet printed m r m' hr
    obtain ⟨s, m₁, hs, hr⟩ := hr.attempt_bind_cases
    obtain ⟨depth', hs⟩ := ha request next quiet printed m s m₁ hs
    obtain ⟨depth'', hs'⟩ := ih s quiet printed m₁ r m' hr
    refine ⟨depth'', hs.trans (.trans ?_ hs')⟩
    cases s with
    | ok v => exact Work.Steps.idle (.answered ..) _
    | error e => exact Work.Steps.idle (.refused ..) _
  | print text next ih =>
    intro quiet printed m r m' hr
    obtain ⟨depth', hs⟩ := ih quiet printed { m with printed := m.printed.push text } r m' hr
    refine ⟨depth', .trans ?_ hs⟩
    cases quiet with
    | false => exact .single (.intro (.print depth text next) (.ok () _))
    | true => exact Work.Steps.idle (.mute depth text next) _
  | mint next ih =>
    intro quiet printed m r m' hr
    obtain ⟨depth', hs⟩ := ih _ quiet printed { m with identities := m.identities + 1 } r m' hr
    exact ⟨depth', (Work.Steps.op (.mint quiet depth next) rfl (.ok m.identities _) rfl).trans hs⟩
  | depth next ih =>
    intro quiet printed m r m' hr
    obtain ⟨depth', hs⟩ := ih depth quiet printed m r m' hr
    exact ⟨depth', (Work.Steps.idle (.depth quiet depth next) _).trans hs⟩

/-! ## Blocks -/

/-- A graph in which block `i` does something. -/
def Graph.doing (g : Graph) (f : Frame) (jobs : Nat → Job) (i : Nat) (x : Job) : Work :=
  .level g f (Function.update jobs i x) x.error?

section Blocks

variable {h : Host} {quiet : Bool} {printed : Array String} {m m' : Machine} {g : Graph} {f : Frame}
  {jobs : Nat → Job} {i : Nat} {b : Block} {answer : Request → Run Value}

theorem Work.Steps.job (hb : g.blocks[i]? = some b) {x y : Job} {α : Type} (op : Op α)
    {k : Except RunError α → Job} {r : Except RunError α} (hr : Yields (op.run m) r m')
    (ho : x.Offers f b.id op k) (hp : op.prints = false) (hy : k r = y) :
    Work.Steps h quiet (g.doing f jobs i x, m.shown quiet printed)
      (g.doing f jobs i y, m'.shown quiet printed) := by
  subst hy
  have hx : x.error? = none := by cases ho <;> rfl
  have ho' : (Function.update jobs i x i).Offers f b.id op k := by rwa [Function.update_self]
  have hs : Work.Steps h quiet (g.doing f jobs i x, m.shown quiet printed) (_, m'.shown quiet printed) :=
    Work.Steps.op (.job quiet x.error? hb ho') hp hr rfl
  rwa [Function.update_idem, hx, Option.none_or] at hs

theorem Work.Steps.working {w w' : Work} (hs : Work.Steps h quiet (w, m) (w', m')) :
    Work.Steps h quiet (g.doing f jobs i (.working w), m) (g.doing f jobs i (.working w'), m') := by
  refine Work.Steps.inside (F := fun w => g.doing f jobs i (.working w)) ?_ hs
  intro w α op k ho
  have := Work.Offers.work (h := h) g f none (Function.update_self i (.working w) jobs) ho
  simp only [Function.update_idem] at this
  exact this

/-- What is kept of what a block comes to. -/
def Job.kept (f : Frame) : Except RunError Value → Job := Job.after fun v => .storing (.keep f.scope v)

theorem Script.does_in_block (ha : h.Answers f.depth answer) (hb : g.blocks[i]? = some b)
    (s : Script Value) {r : Except RunError Value} (hr : Yields (s.run answer f.depth m) r m') :
    Work.Steps h quiet (g.doing f jobs i (.working (.script f.depth s)), m.shown quiet printed)
      (g.doing f jobs i (.kept f r), m'.shown quiet printed) := by
  obtain ⟨depth, hs⟩ := Script.does ha s quiet printed m r m' hr
  refine hs.working.trans ?_
  cases r with
  | ok v => exact Work.Steps.job hb .idle (.ok () m') (.done depth v) rfl rfl
  | error e => exact Work.Steps.job hb .idle (.ok () m') (.fail depth e) rfl rfl

theorem runSteps_does (ha : h.Answers f.depth answer) (hb : g.blocks[i]? = some b)
    {args : List Value} {is : List Instruction} {r : Except RunError Value}
    (hr : Yields (runSteps answer f b.id args is m) r m') :
    Work.Steps h quiet (g.doing f jobs i (.reading args is), m.shown quiet printed)
      (g.doing f jobs i (.kept f r), m'.shown quiet printed) := by
  fun_induction runSteps answer f b.id args is generalizing m with
  | case1 args a rest ih =>
    rcases hr.bind_cases with ⟨v, m₁, hv, hr⟩ | ⟨e, he, rfl⟩
    · exact (Work.Steps.job hb (.find f a) hv (.argument args a rest) rfl rfl).trans (ih v hr)
    · exact Work.Steps.job hb (.find f a) he (.argument args a rest) rfl rfl
  | case2 args callee rest =>
    rcases hr.bind_cases with ⟨v, m₁, hv, hr⟩ | ⟨e, he, rfl⟩
    · exact (Work.Steps.job hb (.find f callee) hv (.call args callee rest) rfl rfl).trans
        (Script.does_in_block ha hb _ hr)
    · exact Work.Steps.job hb (.find f callee) he (.call args callee rest) rfl rfl
  | case3 args c rest => exact Work.Steps.job hb (.constant f c) hr (.constant args c rest) rfl rfl
  | case4 args value name form rest =>
    rcases hr.bind_cases with ⟨v, m₁, hv, hr⟩ | ⟨e, he, rfl⟩
    · refine (Work.Steps.job hb (.find f value) hv (.field args value name form rest) rfl rfl).trans ?_
      rcases hr.bind_cases with ⟨text, m₂, ht, hr⟩ | ⟨e, he, rfl⟩
      · exact (Work.Steps.job hb (.fieldName f name) ht (.name v name form) rfl rfl).trans
          (Script.does_in_block ha hb _ hr)
      · exact Work.Steps.job hb (.fieldName f name) he (.name v name form) rfl rfl
    · exact Work.Steps.job hb (.find f value) he (.field args value name form rest) rfl rfl
  | case5 args a rest => exact Work.Steps.job hb (.find f a) hr (.copy args a rest) rfl rfl
  | case6 rest args hargument hcall hconstant hfield hcopy =>
    have hstuck : Stuck rest := by
      cases rest with
      | nil => trivial
      | cons x rest =>
        cases x with
        | argument a => exact hargument a rest rfl
        | call a => exact hcall a rest rfl
        | constant c => exact hconstant c rest rfl
        | field a name form => exact hfield a name form rest rfl
        | copy a => exact hcopy a rest rfl
        | enter | leave => trivial
    cases hr with
    | error e => exact Work.Steps.job hb .idle (.ok () m') (.stuck args hstuck) rfl rfl

theorem Block.does (ha : h.Answers f.depth answer) (hb : g.blocks[i]? = some b)
    {r : Except RunError Unit} (hr : Yields (b.run answer f m) r m') :
    Work.Steps h quiet (g.doing f jobs i (b.start f), m.shown quiet printed)
      (g.doing f jobs i (Job.after (fun _ => .finished) r), m'.shown quiet printed) := by
  cases b with
  | function id body =>
    exact Work.Steps.job hb (.put f.scope id (.declared body f.unit id)) hr (.put _) rfl rfl
  | steps id is =>
    rcases hr.bind_cases with ⟨v, m₁, hv, hr⟩ | ⟨e, he, rfl⟩
    · exact (runSteps_does ha hb hv).trans
        (Work.Steps.job hb (.put f.scope id (.keep f.scope v)) hr (.put _) rfl rfl)
    · exact runSteps_does ha hb he

end Blocks

/-! ## Graphs -/

/-- Blocks that have ended, the others waiting. -/
def Job.visited (done : List Nat) (i : Nat) : Job := if i ∈ done then .finished else .waiting

theorem Job.visited_cons (done : List Nat) (i : Nat) :
    Function.update (Job.visited done) i .finished = Job.visited (i :: done) := by
  funext j
  by_cases hj : j = i
  · simp [hj, Job.visited]
  · simp [hj, Job.visited]

theorem Job.visited_reverse (done : List Nat) : Job.visited done.reverse = Job.visited done := by
  funext j
  simp [Job.visited]

theorem Job.visited_eq_or (done : List Nat) (i : Nat) :
    Job.visited done i = .finished ∨ Job.visited done i = .waiting := by
  unfold Job.visited
  split
  · exact .inl rfl
  · exact .inr rfl

theorem Graph.unfinished_visited (g : Graph) (done : List Nat) :
    g.unfinished (Job.visited done) = Peel.Summary.missing ⟨g.blocks.length, done⟩ := by
  rw [Peel.Summary.missing_eq, Graph.unfinished]
  refine List.filter_congr fun i _ => ?_
  unfold Job.visited
  by_cases hi : i ∈ done
  · simp [hi, Job.isFinished]
  · simp [hi, Job.isFinished]

section Graphs

variable {h : Host} {quiet : Bool} {printed : Array String} {m m' : Machine} {g : Graph} {f : Frame}
  {answer : Request → Run Value}

theorem Graph.visits_does (ha : h.Answers f.depth answer) {done out : List Nat}
    (hp : Peel.Peels g.blocks.length g.dependents done out) {r : Except RunError Unit}
    (hr : Yields (out.forM (g.runBlock answer f) m) r m') :
    Work.Steps h quiet (.level g f (Job.visited done) none, m.shown quiet printed)
      (Work.after (fun _ => .level g f (Job.visited (out.reverse ++ done)) none) r,
        m'.shown quiet printed) := by
  induction hp generalizing m with
  | nil =>
    cases hr
    exact .refl
  | @cons done i out hlt hi hfree _ ih =>
    obtain ⟨b, hb⟩ : ∃ b, g.blocks[i]? = some b := ⟨_, List.getElem?_eq_getElem hlt⟩
    have hrun : g.runBlock answer f i = b.run answer f := by
      unfold Graph.runBlock
      rw [hb]
    have hwaiting : Job.visited done i = .waiting := if_neg hi
    have hstart : Work.Steps h quiet (.level g f (Job.visited done) none, m.shown quiet printed)
        (g.doing f (Job.visited done) i (b.start f), m.shown quiet printed) := by
      have herror : (b.start f).error? = none := by cases b <;> rfl
      rw [Graph.doing, herror]
      exact Work.Steps.idle (.start quiet f hb hwaiting fun j hj => if_pos (hfree j hj)) _
    replace hr : Yields ((b.run answer f >>= fun _ => out.forM (g.runBlock answer f)) m) r m' := by
      rw [← hrun]
      exact hr
    rcases hr.bind_cases with ⟨u, m₁, hu, hr⟩ | ⟨e, he, rfl⟩
    · have hblock : Work.Steps h quiet
          (g.doing f (Job.visited done) i (b.start f), m.shown quiet printed)
          (.level g f (Job.visited (i :: done)) none, m₁.shown quiet printed) := by
        rw [← Job.visited_cons]
        exact Block.does ha hb hu
      rw [List.reverse_cons, List.append_assoc]
      exact hstart.trans (hblock.trans (ih hr))
    · refine hstart.trans ((Block.does ha hb he).trans (Work.Steps.idle (.abort quiet g f e ?_) _))
      intro j
      by_cases hj : j = i
      · rw [hj, Function.update_self]
        rfl
      · rw [Function.update_of_ne hj]
        rcases Job.visited_eq_or done j with hv | hv <;> rw [hv] <;> rfl

/-- The value of a graph whose blocks have been visited. -/
theorem Graph.conclude_does {result : ValueId} (hres : g.result? = some result) {r : Except RunError Value}
    (hr : Yields (g.conclude f.scope result m) r m') : ∃ depth,
    Work.Steps h quiet
      (.level g f (Job.visited (Peel.order g.blocks.length g.dependents)) none,
        m.shown quiet printed) (.ended depth r, m'.shown quiet printed) := by
  have hmissing := g.unfinished_visited (Peel.order g.blocks.length g.dependents)
  rw [Graph.conclude] at hr
  split at hr
  case isTrue hc =>
    have hempty : g.unfinished (Job.visited (Peel.order g.blocks.length g.dependents)) = [] := by
      rw [hmissing]
      exact List.isEmpty_iff.mp hc
    have hop : Yields ((Op.result f.scope result).run m) r m' := hr
    cases r with
    | ok v => exact ⟨f.depth, Work.Steps.op (.result quiet f hres hempty) rfl hop rfl⟩
    | error e => exact ⟨0, Work.Steps.op (.result quiet f hres hempty) rfl hop rfl⟩
  case isFalse hc =>
    cases hr
    have hp := Peel.peels_order g.blocks.length g.dependents
    have hcycle : Work.Offers h quiet
        (.level g f (Job.visited (Peel.order g.blocks.length g.dependents)) none) .idle fun _ =>
        .fail (.cycle (g.unfinished (Job.visited
          (Peel.order g.blocks.length g.dependents))).length) := by
      refine .cycle quiet f (fun i => ?_) ?_ fun i hi hw hfree => ?_
      · rcases Job.visited_eq_or (Peel.order g.blocks.length g.dependents) i with hv | hv <;>
          rw [hv] <;> rfl
      · rw [hmissing]
        exact fun he => hc (List.isEmpty_iff.mpr he)
      · have hnot : i ∉ Peel.order g.blocks.length g.dependents := fun hm => by
          rw [Job.visited, if_pos hm] at hw
          cases hw
        obtain ⟨j, hj, -, hjo⟩ := hp.left_over i hi nofun hnot
        have hfin := hfree j hj
        rw [Job.visited, if_neg hjo] at hfin
        cases hfin
    rw [hmissing] at hcycle
    exact ⟨0, Work.Steps.idle hcycle _⟩

/-- The run of a graph: it is entered, its blocks are visited, and its value is read. -/
theorem Graph.run_eq_enter {result : ValueId} (hres : g.result? = some result)
    (unit depth : Nat) (parent : Option Nat) (args : List Value) :
    g.run answer unit depth parent args = ((Op.enter g unit depth parent args).run >>= fun f =>
      (Peel.order g.blocks.length g.dependents).forM (g.runBlock answer f) >>= fun _ =>
        g.conclude f.scope result) := by
  rw [Graph.run_eq hres]
  simp only [Op.run, bind_assoc, pure_bind]

theorem Op.depth_of_enter {unit depth : Nat} {parent : Option Nat} {args : List Value}
    (hr : Yields ((Op.enter g unit depth parent args).run m) (.ok f) m') : f.depth = depth := by
  rcases hr.bind_cases with ⟨scope, m₁, -, hr⟩ | ⟨e, -, he⟩
  · rcases hr.bind_cases with ⟨u, m₂, -, hr⟩ | ⟨e, -, he⟩
    · cases hr
      rfl
    · cases he
  · cases he

theorem Graph.does {depth : Nat} (ha : h.Answers depth answer) (g : Graph) (unit : Nat) (parent : Option Nat)
    (args : List Value) :
    (Work.call g unit depth parent args).Does h (g.run answer unit depth parent args) := by
  intro quiet printed m r m' hr
  cases hres : g.result? with
  | none =>
    have hrun : g.run answer unit depth parent args = Run.fail .emptyBody := by
      unfold Graph.run
      simp only [hres]
    rw [hrun] at hr
    cases hr
    exact ⟨0, Work.Steps.idle (.empty quiet unit depth parent args hres) _⟩
  | some result =>
    rw [Graph.run_eq_enter hres] at hr
    have henter := Work.Offers.enter (h := h) quiet unit depth parent args hres
    rcases hr.bind_cases with ⟨f, m₁, hf, hr⟩ | ⟨e, he, rfl⟩
    · have ha' : h.Answers f.depth answer := by rwa [Op.depth_of_enter hf]
      have hp := Peel.peels_order g.blocks.length g.dependents
      have hentered : Work.Steps h quiet (_, m.shown quiet printed) (_, m₁.shown quiet printed) :=
        Work.Steps.op henter rfl hf rfl
      rcases hr.bind_cases with ⟨u, m₂, hu, hr⟩ | ⟨e, he, rfl⟩
      · have hvisits : Work.Steps h quiet (_, m₁.shown quiet printed) (_, m₂.shown quiet printed) :=
          Graph.visits_does ha' hp hu
        rw [Work.after, List.append_nil, Job.visited_reverse] at hvisits
        obtain ⟨depth', hs⟩ := Graph.conclude_does hres hr
        exact ⟨depth', hentered.trans (hvisits.trans hs)⟩
      · exact ⟨0, hentered.trans (Graph.visits_does ha' hp he)⟩
    · exact ⟨0, Work.Steps.op henter rfl he rfl⟩

end Graphs

/-! ## Requests and programs -/

theorem Program.does {h : Host} {answer : Request → Run Value} (ha : h.Answers 0 answer)
    (p : Program) : (Work.boot p).Does h (p.run answer) := by
  intro quiet printed m r m' hr
  have hboot : Work.Steps h quiet (.boot p, m.shown quiet printed)
      (.call p.graph m.images.size 0 none [],
        ({ m with images := m.images.push p.image }).shown quiet printed) :=
    Work.Steps.op (.boot quiet p) rfl (.ok m.images.size _) rfl
  obtain ⟨depth, hs⟩ := Graph.does ha p.graph m.images.size none [] quiet printed _ r m' hr
  exact ⟨depth, hboot.trans hs⟩

/-- A native function or a method: its arguments are checked, and then its script runs. -/
theorem Work.Does.check {h : Host} {w : Work} {x : Run Value} (hw : w.Does h x)
    (check : Except RunError Unit) :
    (match check with
      | .ok _ => w
      | .error e => .fail e).Does h (Run.ofExcept check >>= fun _ => x) := by
  cases check with
  | ok u => exact hw
  | error e =>
    intro quiet printed m r m' hr
    cases hr
    exact ⟨0, .refl⟩

theorem Work.fail_does (h : Host) (e : RunError) : (Work.fail e).Does h (Run.fail e) := by
  intro quiet printed m r m' hr
  cases hr
  exact ⟨0, .refl⟩

/-- A program that is loaded, with its output or without. -/
theorem Program.does_loaded {h : Host} {answer : Request → Run Value} (ha : h.Answers 0 answer)
    (p : Program) (target : String) {quiet quiet' : Bool} {printed : Array String} {m m' : Machine}
    {r : Except RunError Value}
    (hr : Yields ((if quiet' then quietly (p.run answer) else p.run answer) m) r m') :
    ∃ depth, Work.Steps h quiet (.load target quiet' (.boot p), m.shown quiet printed)
      (.load target quiet' (.ended depth r), m'.shown quiet printed) := by
  have lift {w w' : Work} {m m' : Machine} (hs : Work.Steps h (quiet || quiet') (w, m) (w', m')) :
      Work.Steps h quiet (.load target quiet' w, m) (.load target quiet' w', m') :=
    Work.Steps.inside (F := fun w => .load target quiet' w) (fun ho => .loading target quiet' ho) hs
  cases quiet' with
  | false =>
    rw [Bool.or_false] at lift
    obtain ⟨depth, hs⟩ := Program.does ha p quiet printed m r m' hr
    exact ⟨depth, lift hs⟩
  | true =>
    rw [Bool.or_true] at lift
    -- What is printed inside is forgotten, so the output of the machine around stays in place.
    have hshown (m₁ : Machine) : (m₁.withPrinted m.printed).shown quiet printed =
        m₁.shown true (m.shown quiet printed).printed := by
      cases quiet <;> rfl
    have hstart : ({ m with printed := #[] } : Machine).shown true (m.shown quiet printed).printed =
        m.shown quiet printed := by
      cases quiet <;> rfl
    obtain ⟨m₁, hr₁, rfl⟩ : ∃ m₁, Yields (p.run answer { m with printed := #[] }) r m₁ ∧
        m' = m₁.withPrinted m.printed := by
      simp only [↓reduceIte, quietly] at hr
      cases hx : p.run answer { m with printed := #[] } with
      | ok v m₁ =>
        rw [hx] at hr
        cases hr
        exact ⟨m₁, .ok v m₁, rfl⟩
      | error e m₁ =>
        rw [hx] at hr
        cases hr with
        | error e => exact ⟨m₁, .error e m₁, rfl⟩
    obtain ⟨depth, hs⟩ :=
      Program.does ha p true (m.shown quiet printed).printed { m with printed := #[] } r m₁ hr₁
    rw [hstart, ← hshown] at hs
    exact ⟨depth, lift hs⟩

/-- Requests are answered as in a sequential run. -/
theorem Host.answers_answer (h : Host) (fuel depth : Nat) :
    h.Answers depth (h.answer fuel depth) := by
  induction fuel generalizing depth with
  | zero =>
    intro request next quiet printed m r m' hr
    cases hr
  | succ fuel ih =>
    intro request next quiet printed m r m' hr
    cases request with
    | call f args =>
      have hcall : (h.called depth f args).Does h (h.answer (fuel + 1) depth (.call f args)) := by
        cases f with
        | native n => exact (Script.does (ih depth) (h.scriptOf n args)).check _
        | method identity receiver method =>
          exact (Script.does (ih depth) (method.script receiver args)).check _
        | closure identity c =>
          rw [Host.answer_closure]
          unfold Host.called
          dsimp only
          split
          · split
            · exact Work.fail_does h _
            · exact Graph.does (ih (depth + 1)) c.graph c.unit (some c.scope) args
          · exact Work.fail_does h _
      obtain ⟨depth', hs⟩ := hcall quiet printed m r m' hr
      refine ⟨depth', (Work.Steps.idle (.ask quiet depth f args next) _).trans ?_⟩
      exact Work.Steps.inside (F := fun w => .bind depth w next) (fun ho => .inner depth next ho) hs
    | load target =>
      cases hl : h.loader? with
      | none =>
        have hfail : h.answer (fuel + 1) depth (.load target) m =
            .error (.error (.noLoader target)) m := by
          rw [Host.answer]
          simp only [hl]
          rfl
        rw [hfail] at hr
        cases hr
        exact ⟨0, Work.Steps.idle (.noLoader quiet depth target next hl) _⟩
      | some loader =>
        have hnote : Work.Steps h quiet (.script depth (.ask (.load target) next),
            m.shown quiet printed) (.bind depth (Host.loaded target (loader target)) next,
              ({ m with loads := m.loads.push target }).shown quiet printed) :=
          Work.Steps.op (.load quiet depth target next hl) rfl (.ok () _) rfl
        cases ht : loader target with
        | program p quiet' =>
          rw [ht] at hnote
          rw [Host.answer_program hl ht] at hr
          have lift {w w' : Work} {m m' : Machine} (hs : Work.Steps h quiet (w, m) (w', m')) :
              Work.Steps h quiet (.bind depth w next, m) (.bind depth w' next, m') :=
            Work.Steps.inside (F := fun w => .bind depth w next) (fun ho => .inner depth next ho) hs
          split at hr
          case h_1 v m₁ hx =>
            cases hr
            obtain ⟨depth', hs⟩ := Program.does_loaded (ih 0) p target (.of_ok hx)
            exact ⟨depth', hnote.trans (lift (hs.trans (Work.Steps.idle (.loaded ..) _)))⟩
          case h_2 e m₁ hx =>
            cases e with
            | exhausted => cases hr
            | error e =>
              cases hr
              obtain ⟨depth', hs⟩ := Program.does_loaded (ih 0) p target (.of_error hx)
              exact ⟨0, hnote.trans (lift (hs.trans (Work.Steps.idle (.unloaded ..) _)))⟩
        | _ =>
          rw [ht] at hnote
          rw [Host.answer] at hr
          simp only [hl, ht] at hr
          cases hr
          exact ⟨0, hnote⟩

end Dataflow
