import Dataflow.Proofs.Run.Raises
import Dataflow.Proofs.Run.Served

/-!
# Compiled programs do not fail internally

While a compiled program runs, every block under way makes a value of what is there, no operation
fails, and scripts fail only because of what they were given. So a run ends with an internal error
only if a function of the host that was called in this run raises it.

* `Machine.Served`: the activations of a machine belong to graphs that have all they need;
* `Work.Clean`: what is under way fails only with admitted errors;
* `Op.Served`: an operation has what it needs;
* `Work.AsksClean`: functions of the host that are asked for raise only admitted errors;
* `State.Clean.steps`: runs stay clean as long as they ask for such functions only;
* `Host.RaisesBetween`: a function of the host was called that can raise an error;
* **`Node.never_internal`**: compiled programs can be built and do not fail internally.
-/

namespace Dataflow

open Run

/-- The programs that can be loaded from a host have all they need. -/
def Host.Served (h : Host) : Prop := ∀ {loader target p quiet}, h.loader? = some loader →
  loader target = .program p quiet → p.graph.Served p.image

/-- The graphs that activations belong to have all they need. -/
def Machine.Served (sites : Nat → Site) (m : Machine) : Prop :=
  ∀ scope < m.activations.size, ∃ image, m.images[(sites scope).unit]? = some image ∧
    ∀ g ∈ (sites scope).levels, g.Served image

theorem Machine.Served.within {sites : Nat → Site} {m : Machine} (h : m.Served sites) :
    Within Graph.Solid sites m := fun scope hs g hg => by
  obtain ⟨image, -, hserved⟩ := h scope hs
  exact (hserved g hg).solid

/-- The images of a machine are there in another one. -/
def Machine.KeepsImages (m m' : Machine) : Prop :=
  ∀ {unit : Nat} {image : Image}, m.images[unit]? = some image → m'.images[unit]? = some image

mutual

/-- What is under way can fail only with errors of the kind `A`. -/
def Work.Clean (A : RunError → Prop) (m : Machine) : Work → Prop
  | .script _ s => s.Fails A
  | .bind _ inner next =>
    inner.Clean A m ∧ ∀ x, ErrorsAre A x → (next x).Fails A
  | .boot p => p.graph.Served p.image
  | .call g unit _ parent _ =>
    parent = none → ∃ image, m.images[unit]? = some image ∧ g.Served image
  | .level _ f jobs failure => (∀ e, failure = some e → A e) ∧ ∀ i, (jobs i).Clean A m f
  | .load _ _ inner => inner.Clean A m

/-- What a block does can fail only with errors of the kind `A`. -/
def Job.Clean (A : RunError → Prop) (m : Machine) (f : Frame) : Job → Prop
  | .reading _ rest => ∃ image, m.images[f.unit]? = some image ∧ Making image rest
  | .selecting _ name _ => ∃ image, m.images[f.unit]? = some image ∧
    ∃ text, image.Holds name (.ofText text)
  | .working w => w.Clean A m
  | .failed e => A e
  | .waiting | .storing _ | .finished => True

end

section Grows

variable {A : RunError → Prop} {m m' : Machine}

mutual

/-- What is under way stays clean while images are added. -/
theorem Work.Clean.grow (hi : m.KeepsImages m') (w : Work) (hw : w.Clean A m) : w.Clean A m' := by
  cases w with
  | script depth s =>
    rw [Work.Clean] at hw ⊢
    exact hw
  | bind depth inner next =>
    rw [Work.Clean] at hw ⊢
    exact ⟨Work.Clean.grow hi inner hw.1, hw.2⟩
  | boot p =>
    rw [Work.Clean] at hw ⊢
    exact hw
  | call g unit depth parent args =>
    rw [Work.Clean] at hw ⊢
    intro hp
    obtain ⟨image, hu, hg⟩ := hw hp
    exact ⟨image, hi hu, hg⟩
  | level g f jobs failure =>
    rw [Work.Clean] at hw ⊢
    exact ⟨hw.1, fun i => Job.Clean.grow hi (jobs i) (hw.2 i)⟩
  | load target quiet inner =>
    rw [Work.Clean] at hw ⊢
    exact Work.Clean.grow hi inner hw

theorem Job.Clean.grow (hi : m.KeepsImages m') {f : Frame} (j : Job) (hj : j.Clean A m f) :
    j.Clean A m' f := by
  cases j with
  | working w =>
    rw [Job.Clean] at hj ⊢
    exact Work.Clean.grow hi w hj
  | reading | selecting =>
    rw [Job.Clean] at hj ⊢
    obtain ⟨image, hu, hx⟩ := hj
    exact ⟨image, hi hu, hx⟩
  | waiting | storing | finished | failed =>
    rw [Job.Clean] at hj ⊢
    exact hj

end

end Grows

/-! ## Scripts and requests -/

/-- Something under way asks for a call. -/
inductive Work.Asks : Work → Function → List Value → Prop where
  | here (depth : Nat) (f : Function) (args : List Value)
    (next : Except RunError Value → Script Value) :
    Asks (.script depth (.ask (.call f args) next)) f args
  | bind {w : Work} {f : Function} {args : List Value} (depth : Nat)
    (next : Except RunError Value → Script Value) (h : Asks w f args) : Asks (.bind depth w next) f args
  | load {w : Work} {f : Function} {args : List Value} (target : String) (quiet : Bool)
    (h : Asks w f args) : Asks (.load target quiet w) f args
  | work {w : Work} {f : Function} {args : List Value} (g : Graph) (frame : Frame)
    {jobs : Nat → Job} {i : Nat} (failure : Option RunError) (hw : jobs i = .working w)
    (h : Asks w f args) : Asks (.level g frame jobs failure) f args

/-- Functions of the host that are asked for can fail only with errors of the kind `A`. -/
def Work.AsksClean (h : Host) (A : RunError → Prop) (w : Work) : Prop :=
  ∀ {n : Native} {number : Nat} {args : List Value}, w.Asks (.native n) args →
    n.body = .host number → (h.function number args).Fails A

section Scripts

variable {h : Host} {A : RunError → Prop} (hA : ∀ e, e.isInternal = false → A e)

theorem Work.clean_fail {m : Machine} {e : RunError} (he : A e) : (Work.fail e).Clean A m := by
  rw [Work.fail, Work.Clean]
  exact Script.fails_fail he

include hA

theorem RunError.admitted_of_isOrdinary (e : RunError) (he : e.isOrdinary = true) : A e :=
  hA e (RunError.not_isInternal_of_isOrdinary he)

/-- A call comes to something clean; what a closure needs is known from its activation. -/
theorem Host.clean_called (m : Machine) (depth : Nat) {f : Function} {args : List Value}
    (hf : ∀ {n number}, f = .native n → n.body = .host number → (h.function number args).Fails A) :
    (h.called depth f args).Clean A m := by
  have admits := RunError.admitted_of_isOrdinary hA
  cases f with
  | native n =>
    rw [Host.called]
    cases hc : n.signature.check n.name args with
    | ok =>
      simp only [Work.Clean]
      unfold Host.scriptOf
      split
      · exact (Builtin.script_orderly _ args).fails admits
      · rename_i number hn
        exact hf rfl hn
    | error e => exact Work.clean_fail (admits e (n.signature.check_errors _ _ e hc))
  | method identity receiver m =>
    rw [Host.called]
    cases hc : m.signature.check (Function.method identity receiver m).name args with
    | ok =>
      simp only [Work.Clean]
      exact (m.script_orderly receiver args).fails admits
    | error e => exact Work.clean_fail (admits e (m.signature.check_errors _ _ e hc))
  | closure identity c =>
    rw [Host.called]
    split
    · split
      · exact Work.clean_fail (hA _ rfl)
      · rw [Work.Clean]
        exact nofun
    · exact Work.clean_fail (admits _ rfl)

theorem Host.clean_loaded (hh : h.Served) (m : Machine) {loader : String → Loaded}
    (hl : h.loader? = some loader) (target : String) :
    (Host.loaded target (loader target)).Clean A m := by
  cases ht : loader target with
  | value v =>
    rw [Host.loaded, Work.Clean]
    exact Script.fails_done v
  | failed message => exact Work.clean_fail (hA _ rfl)
  | dropped => exact Work.clean_fail (hA _ rfl)
  | program p quiet =>
    rw [Host.loaded, Work.Clean, Work.Clean]
    exact hh hl ht

end Scripts

/-! ## Operations -/

/-- What an operation needs of an image is there. -/
def Op.Served (m : Machine) {α : Type} : Op α → Prop
  | .find f id => ∃ image, m.images[f.unit]? = some image ∧ (id < 0 → image.Has id)
  | .constant f id => ∃ image, m.images[f.unit]? = some image ∧
    ∃ c, image.Holds id c ∧ c.value?.isSome = true
  | .fieldName f id => ∃ image, m.images[f.unit]? = some image ∧ ∃ text, image.Holds id (.ofText text)
  | .enter g unit _ parent _ =>
    parent = none → ∃ image, m.images[unit]? = some image ∧ g.Served image
  | _ => True

namespace Op

variable {sites sites' : Nat → Site} {m m' : Machine}

theorem getD_images {unit : Nat} {image : Image} (h : m.images[unit]? = some image) :
    m.images.getD unit default = image := by
  rw [Array.getD_eq_getD_getElem?, h]
  rfl

/-- An operation that has what it needs does not fail. -/
theorem Served.not_declines {α : Type} {op : Op α} (hs : op.Served m) {e : RunError}
    (hr : op.run m = .error (.error e) m) : ¬ op.Declines m e := by
  intro hd
  cases op with
  | find f id =>
    obtain ⟨image, hu, hhas⟩ := hs
    obtain ⟨hneg, hnone, -⟩ := hd
    have hsome := hhas hneg
    rw [Machine.environment, getD_images hu] at hnone
    rw [Image.Has, hnone] at hsome
    cases hsome
  | constant f id =>
    obtain ⟨image, hu, c, hc, hv⟩ := hs
    obtain ⟨v, hv⟩ := Option.isSome_iff_exists.mp hv
    have hrun : f.constant id m = .ok v m := by
      rw [f.constant_apply id m, getD_images hu, show image.constants[id.toNat]? = some c from hc]
      simp only [hv]
    rw [Op.run, hrun] at hr
    cases hr
  | fieldName f id =>
    obtain ⟨image, hu, text, hc⟩ := hs
    have hrun : f.constant id m = .ok (.str text) m := by
      rw [f.constant_apply id m, getD_images hu,
        show image.constants[id.toNat]? = some (.ofText text) from hc]
      simp only [Constant.value?_ofText]
    rw [Op.run, Frame.fieldName, bind_ok hrun] at hr
    cases hr
  | _ => exact hd

/-- A machine on which an operation was done that had what it needs. -/
theorem Served.machine {α : Type} {op : Op α} (ho : op.Served m) (hm : m.Served sites)
    (hs : op.Safe Graph.Solid sites m) (hk : op.Kept Graph.Solid sites m sites' m') :
    m'.Served sites' := by
  intro scope hscope
  by_cases hlt : scope < m.activations.size
  · obtain ⟨image, hu, hg⟩ := hm scope hlt
    rw [hk.grows.sites hlt]
    exact ⟨image, hk.grows.images hu, hg⟩
  · have he := hk.entered scope hscope (Nat.not_lt.mp hlt)
    cases op with
    | enter g unit depth parent args =>
      have he' : sites' scope = ⟨levelsOf sites g parent, unit⟩ := he
      rw [he']
      cases parent with
      | none =>
        obtain ⟨image, hu, hg⟩ := ho rfl
        refine ⟨image, hk.grows.images hu, fun g' hg' => ?_⟩
        obtain rfl : g' = g := by simpa [levelsOf] using hg'
        exact hg
      | some p =>
        obtain ⟨hp, hunit, g₁, outer, j, id, hl, hb, -⟩ := hs.1.of_some rfl
        obtain ⟨image, hu, hg⟩ := hm p hp
        rw [hunit] at hu
        refine ⟨image, hk.grows.images hu, fun g' hg' => ?_⟩
        rcases List.mem_cons.mp hg' with rfl | hg'
        · exact (hg g₁ (by simp [hl])).body hb
        · exact hg g' hg'
    | _ => exact he.elim

end Op

/-! ## Steps -/

section Steps

variable {h : Host} {A : RunError → Prop} {sites : Nat → Site} {m m' : Machine}

theorem Making.not_stuck {image : Image} {rest : List Instruction} (hm : Making image rest) :
    ¬ Stuck rest := by
  cases hm with
  | argument => exact id
  | @value i hi _ =>
    cases i with
    | argument | enter | leave => cases hi
    | call | constant | field | copy => exact id

/-- What a block does next has what it needs. -/
theorem Job.Offers.served {f : Frame} {id : ValueId} {j : Job} {α : Type} {op : Op α}
    {k : Except RunError α → Job} (ho : j.Offers f id op k) (hj : j.Clean A m f) : op.Served m := by
  cases ho with
  | argument args a rest =>
    rw [Job.Clean] at hj
    obtain ⟨image, hu, hm⟩ := hj
    cases hm with
    | argument hs _ => exact ⟨image, hu, hs⟩
    | value _ hs => exact ⟨image, hu, hs⟩
  | call args a rest | copy args a rest =>
    rw [Job.Clean] at hj
    obtain ⟨image, hu, hm⟩ := hj
    cases hm with
    | value _ hs => exact ⟨image, hu, hs⟩
  | constant args c rest =>
    rw [Job.Clean] at hj
    obtain ⟨image, hu, hm⟩ := hj
    cases hm with
    | value _ hs => exact ⟨image, hu, hs⟩
  | field args a name form rest =>
    rw [Job.Clean] at hj
    obtain ⟨image, hu, hm⟩ := hj
    cases hm with
    | value _ hs => exact ⟨image, hu, hs.1⟩
  | name v name form =>
    rw [Job.Clean] at hj
    exact hj
  | stuck | done | fail | put => trivial

/-- What a block goes on with is clean. -/
theorem Job.Offers.clean (hA : ∀ e, e.isInternal = false → A e) {f : Frame} {id : ValueId}
    {j : Job} {α : Type} {op : Op α} {k : Except RunError α → Job} (ho : j.Offers f id op k)
    (hj : j.Clean A m f) (hi : m.KeepsImages m') (a : α) : (k (.ok a)).Clean A m' f := by
  cases ho with
  | argument args a rest =>
    rw [Job.Clean] at hj
    obtain ⟨image, hu, hm⟩ := hj
    cases hm with
    | argument _ hr =>
      rw [Job.after, Job.Clean]
      exact ⟨image, hi hu, hr⟩
    | value hv => cases hv
  | call args a rest =>
    rw [Job.after, Job.Clean, Work.Clean]
    exact (Value.apply_orderly _ _).fails (RunError.admitted_of_isOrdinary hA)
  | field args a name form rest =>
    rw [Job.Clean] at hj
    obtain ⟨image, hu, hm⟩ := hj
    cases hm with
    | value _ hs =>
      rw [Job.after, Job.Clean]
      exact ⟨image, hi hu, hs.2⟩
  | name v name form =>
    rw [Job.after, Job.Clean, Work.Clean]
    exact (Value.select_orderly _ _ _).fails (RunError.admitted_of_isOrdinary hA)
  | stuck args hstuck =>
    rw [Job.Clean] at hj
    obtain ⟨image, -, hm⟩ := hj
    exact absurd hstuck hm.not_stuck
  | fail depth e =>
    rw [Job.Clean, Work.Clean] at hj
    rw [Job.Clean]
    exact hj e .fail
  | constant | copy | put =>
    rw [Job.after, Job.Clean]
    trivial
  | done =>
    rw [Job.Clean]
    trivial

variable {quiet : Bool} {w : Work} {α : Type} {op : Op α} {k : Except RunError α → Work}

/-- What is offered has what it needs. -/
theorem Work.Offers.served (ho : Work.Offers h quiet w op k) (hw : w.Clean A m) : op.Served m := by
  induction ho with
  | inner _ _ _ ih =>
    rw [Work.Clean] at hw
    exact ih hw.1
  | loading _ _ _ ih =>
    rw [Work.Clean] at hw
    exact ih hw
  | @work _ _ _ _ _ i _ _ _ _ hj _ ih =>
    rw [Work.Clean] at hw
    have hi := hw.2 i
    rw [hj, Job.Clean] at hi
    exact ih hi
  | job _ _ hb hj =>
    rw [Work.Clean] at hw
    exact hj.served (hw.2 _)
  | enter _ _ _ _ _ hr =>
    rw [Work.Clean] at hw
    exact hw
  | _ => trivial

/-- A block that starts has all it needs. -/
theorem Block.clean_start {g : Graph} {f : Frame} {jobs : Nat → Job} {b : Block} {i : Nat}
    (hm : m.Served sites) (hl : LevelFine sites m g f jobs) (hb : g.blocks[i]? = some b) :
    (b.start f).Clean A m f := by
  cases b with
  | function id body =>
    rw [Block.start, Job.Clean]
    trivial
  | steps id is =>
    obtain ⟨outer, hlevels⟩ := hl.levels
    obtain ⟨image, hu, hg⟩ := hm f.scope hl.scope
    rw [hl.unit] at hu
    rw [Block.start, Job.Clean]
    exact ⟨image, hu, (hg g (by simp [hlevels])).level.steps (List.mem_of_getElem? hb)⟩

/-- A graph under way in which one block goes on. -/
theorem Work.Clean.update {g : Graph} {f : Frame} {jobs : Nat → Job}
    {failure failure' : Option RunError} (hw : (Work.level g f jobs failure).Clean A m)
    (hi : m.KeepsImages m') {i : Nat} {j : Job} (hj : j.Clean A m' f)
    (hf : ∀ e, failure' = some e → A e) :
    (Work.level g f (Function.update jobs i j) failure').Clean A m' := by
  rw [Work.Clean] at hw ⊢
  refine ⟨hf, fun l => ?_⟩
  by_cases hl : l = i
  · rw [hl, Function.update_self]
    exact hj
  · rw [Function.update_of_ne hl]
    exact Job.Clean.grow hi _ (hw.2 l)

theorem Job.Clean.admits_of_error? {f : Frame} {j : Job} (hj : j.Clean A m f) {e : RunError}
    (he : j.error? = some e) : A e := by
  cases j with
  | failed e' =>
    rw [Job.Clean] at hj
    cases he
    exact hj
  | _ => cases he

/-- What is offered goes on with something clean. -/
theorem Work.Offers.clean (hA : ∀ e, e.isInternal = false → A e)
    (ho : Work.Offers h quiet w op k) (hh : h.Served) (ha : w.AsksClean h A) (hm : m.Served sites)
    (hw : w.Fine Graph.Solid sites m) (hc : w.Clean A m)
    (hi : m.KeepsImages m') {a : α} (hr : op.run m = .ok a m') : (k (.ok a)).Clean A m' := by
  induction ho with
  | print depth text next | mute depth text next =>
    rw [Work.Clean] at hc ⊢
    exact Script.fails_print.mp hc
  | mint quiet depth next =>
    rw [Work.after, Work.Clean]
    rw [Work.Clean] at hc
    exact Script.fails_mint.mp hc a
  | depth quiet depth next =>
    rw [Work.Clean] at hc ⊢
    exact Script.fails_depth.mp hc depth
  | ask quiet depth f args next =>
    simp only [Work.Clean] at hc ⊢
    refine ⟨Host.clean_called hA m' depth ?_, fun _ => hc.answer⟩
    rintro n number rfl hn
    exact ha (.here depth _ args next) hn
  | noLoader quiet depth target next hl =>
    simp only [Work.Clean] at hc ⊢
    exact ⟨Work.clean_fail (hA _ rfl), fun _ => hc.answer⟩
  | load quiet depth target next hl =>
    simp only [Work.Clean] at hc ⊢
    exact ⟨Host.clean_loaded hA hh m' hl target, fun _ => hc.answer⟩
  | answered quiet depth depth' v next =>
    simp only [Work.Clean] at hc ⊢
    refine hc.2 (.ok v) fun e he => ?_
    cases he
  | refused quiet depth depth' e next =>
    simp only [Work.Clean] at hc ⊢
    refine hc.2 (.error e) ?_
    rintro _ ⟨⟩
    exact hc.1 e .fail
  | inner depth next _ ih =>
    rw [Work.Fine] at hw
    rw [Work.Clean] at hc ⊢
    exact ⟨ih (fun hx => ha (.bind depth next hx)) hw.1 hc.1 hr, hc.2⟩
  | boot quiet p =>
    rw [Work.Clean] at hc
    rw [Work.after, Work.Clean]
    cases hr
    exact fun _ => ⟨p.image, by simp, hc⟩
  | empty quiet unit depth parent args hnone =>
    rw [Work.Fine] at hw
    have hsolid := hw.inside Graph.inherited_solid hm.within
    refine absurd ?_ (hsolid _ (Graph.self_mem_levels _)).2
    rw [Graph.result?, Option.map_eq_none_iff, List.getLast?_eq_none_iff] at hnone
    exact hnone
  | enter quiet unit depth parent args hsome =>
    rw [Work.after, Work.Clean]
    refine ⟨fun e he => absurd he (by simp), fun i => ?_⟩
    rw [Job.Clean]
    trivial
  | start quiet f hb hwait hfree =>
    rw [Work.Fine] at hw
    exact hc.update hi (Job.Clean.grow hi _ (Block.clean_start hm hw.1 hb))
      fun e he => absurd he (by simp)
  | @job quiet g f jobs failure i b α op k hb hj =>
    have hjob := hc
    rw [Work.Clean] at hjob
    have hclean := hj.clean hA (hjob.2 i) hi a
    refine hc.update hi hclean fun e he => ?_
    cases failure with
    | some e' =>
      cases he
      exact hjob.1 e rfl
    | none => exact hclean.admits_of_error? he
  | @work quiet g f jobs failure i w α op k hj _ ih =>
    have hjob := hc
    rw [Work.Clean] at hjob
    rw [Work.Fine] at hw
    have hfine := hw.2 i
    have hclean := hjob.2 i
    rw [hj, Job.Fine] at hfine
    rw [hj, Job.Clean] at hclean
    refine hc.update hi ?_ hjob.1
    rw [Job.Clean]
    exact ih (fun hx => ha (.work g f failure hj hx)) hfine hclean hr
  | result quiet f hres hf =>
    rw [Work.after, Work.Clean]
    exact Script.fails_done a
  | abort quiet g f e hn =>
    rw [Work.Clean] at hc
    exact Work.clean_fail (hc.1 e rfl)
  | cycle quiet f hn hu hf => exact Work.clean_fail (hA _ rfl)
  | loaded quiet quiet' target depth v =>
    rw [Work.Clean]
    exact Script.fails_done v
  | unloaded quiet quiet' target depth e => exact Work.clean_fail (hA _ rfl)
  | loading target quiet' _ ih =>
    rw [Work.Fine] at hw
    rw [Work.Clean] at hc ⊢
    exact ih (fun hx => ha (.load target quiet' hx)) hw hc hr

end Steps

/-! ## Runs -/

/-- What holds at any time of a run of compiled programs. -/
structure State.Clean (h : Host) (A : RunError → Prop) (sites : Nat → Site) (c : Work × Machine) :
    Prop where
  fine : State.Fine Graph.Solid h sites c
  served : c.2.Served sites
  work : c.1.Clean A c.2

namespace State.Clean

variable {h : Host} {A : RunError → Prop} {sites : Nat → Site} {c c' : Work × Machine}

theorem step (hA : ∀ e, e.isInternal = false → A e) (hh : h.Served)
    (hc : State.Clean h A sites c) (ha : c.1.AsksClean h A) (hs : Work.Step h false c c') :
    ∃ sites', State.Clean h A sites' c' := by
  cases hs with
  | intro ho hr =>
    have hserved := ho.served hc.work
    have hfits := hc.fine.fits Graph.inherited_solid Graph.Solid.fits ho
    rcases hc.fine.run_cases Graph.inherited_solid ho hfits with
      ⟨a, m', sites', hrun, hk, hc'⟩ | ⟨e, hrun, hd, -⟩
    · rw [hrun] at hr
      cases hr
      exact ⟨sites', hc', hserved.machine hc.served (ho.safe hc.fine.machine hc.fine.work) hk,
        ho.clean hA hh ha hc.served hc.fine.work hc.work hk.grows.images hrun⟩
    · exact absurd hd (hserved.not_declines hrun)

/-- What is asked for may depend on the whole run. -/
theorem steps (hA : ∀ e, e.isInternal = false → A e) (hh : h.Served)
    (hc : State.Clean h A sites c) (hs : Work.Steps h false c c')
    (ha : ∀ {c₁}, Work.Steps h false c c₁ → Work.Steps h false c₁ c' → c₁.1.AsksClean h A) :
    ∃ sites', State.Clean h A sites' c' := by
  induction hs using Relation.ReflTransGen.head_induction_on generalizing sites with
  | refl => exact ⟨sites, hc⟩
  | head hs hrest ih =>
    obtain ⟨sites₁, hc₁⟩ := hc.step hA hh (ha .refl (.head hs hrest)) hs
    exact ih hc₁ fun h₁ h₂ => ha (.head hs h₁) h₂

end State.Clean

/-- Where a compiled program may be run: its environment, the host and the machine hold only values
that may go around, and all programs that can be loaded or have run have what they need. -/
structure Environment.Ready (h : Host) (sites : Nat → Site) (m : Machine) (e : Environment) :
    Prop where
  environment : ∀ {id v}, e.get? id = some v → v.Fine sites m
  host : h.Fine Graph.Solid sites m
  programs : h.Served
  machine : m.Fine sites
  served : m.Served sites

/-- Between two states a function of the host was called that can raise the error. -/
def Host.RaisesBetween (h : Host) (c c' : Work × Machine) (e : RunError) : Prop :=
  ∃ c₁ n number args, Work.Steps h false c c₁ ∧ Work.Steps h false c₁ c' ∧
    c₁.1.Asks (.native n) args ∧ n.body = .host number ∧ (h.function number args).Raises e

/-- **Compiled programs can be built and do not fail internally**, whatever the order of their
blocks and the limit on the depth of calls, unless a function of the host that was called in this run
raises the error. Numbers of values have 32 bits, so the tree and the environment must not be too
large for them. -/
theorem Node.never_internal {root : Node} {e : Environment} {code : Code} {h : Host}
    {sites : Nat → Site} {m : Machine} (hw : root.weight < 2 ^ 31) (hs : e.size ≤ 2 ^ 31)
    (hc : root.compile e.idOf? = .ok code) (he : e.Ready h sites m) :
    ∃ p, Program.ofCode code e = .ok p ∧
      (∀ {depth err m'}, Work.Steps h false (.boot p, m) (.ended depth (.error err), m') →
        err.isInternal = true →
          h.RaisesBetween (.boot p, m) (.ended depth (.error err), m') err) ∧
      ∀ {fuel err m'}, Yields (p.run (h.answer fuel 0) m) (.error err) m' → err.isInternal = true →
        ∃ depth, h.RaisesBetween (.boot p, m) (.ended depth (.error err), m') err := by
  obtain ⟨p, hp, hserved⟩ := compile_served hw hs hc
  have hpe : p.environment = e := by
    rw [Program.ofCode] at hp
    split at hp
    · cases hp
      rfl
    · cases hp
  have hstate (A : RunError → Prop) : State.Clean h A sites (.boot p, m) := by
    obtain ⟨hbuilt, hfirst, hparams⟩ := Graph.built_of_build hserved.built
    refine ⟨⟨he.host, he.machine, ?_, ?_, he.served.within⟩, he.served, ?_⟩
    · rw [Work.Fine]
      exact ⟨hbuilt, hfirst, hparams, hserved.served.solid, fun hv => he.environment (hpe ▸ hv)⟩
    · rw [Work.Apart]
      trivial
    · rw [Work.Clean]
      exact hserved.served
  have interleaved {depth : Nat} {err : RunError} {m' : Machine}
      (hr : Work.Steps h false (.boot p, m) (.ended depth (.error err), m'))
      (hi : err.isInternal = true) :
      h.RaisesBetween (.boot p, m) (.ended depth (.error err), m') err := by
    -- in this run only such errors can come up that functions called in it raise
    obtain ⟨sites', hc'⟩ := (hstate fun e => e.isInternal = true →
      h.RaisesBetween (.boot p, m) (.ended depth (.error err), m') e).steps
        (fun e he hi => by rw [he] at hi; cases hi) he.programs hr (by
          intro c₁ h₁ h₂ n number args hasks hn e hraises _
          exact ⟨c₁, n, number, args, h₁, h₂, hasks, hn, hraises⟩)
    have hwork := hc'.work
    rw [Work.ended, Work.Clean] at hwork
    exact hwork err .fail hi
  refine ⟨p, hp, interleaved, fun hr hi => ?_⟩
  obtain ⟨depth, hsteps⟩ := Program.steps_of_run hr
  exact ⟨depth, interleaved hsteps hi⟩

/-- The statements `println(call(f))` and `fn f(): 1`, where `call` is a function of the host. -/
def Node.early : Node :=
  .list default [.call default (.ident default "println")
      [.call default (.ident default "call") [.ident default "f"]],
    .function default "f" [] (.literal default (.int 1))]

/-- The unit of these statements. -/
def Code.early : Code :=
  ⟨.zero, [.ofInt 1], [.argument 0, .call (-11), .argument 1, .call (-5), .enter 0, .constant 0,
    .leave, .copy 0]⟩

theorem Environment.ready_offering (options : RunOptions) (sites : Nat → Site) :
    Environment.offering.Ready (.offering options) sites .primed :=
  ⟨offering_fine sites (by decide), Host.offering_fine _ _ _ _, nofun, Machine.primed_fine sites,
    fun _ hs => absurd hs (Nat.not_lt_zero _)⟩

/-- Probes do not raise internal errors. -/
theorem Host.function_offering_fails (options : RunOptions) (number : Nat) (args : List Value) :
    ((offering options).function number args).Fails (·.isInternal = false) := by
  rcases function_offering options number with ⟨p, hp⟩ | hnone
  · rw [hp]
    exact (p.script_orderly args).fails fun _ => RunError.not_isInternal_of_isOrdinary
  · rw [hnone]
    exact Script.fails_done _

/-- The run of these statements prints what `f` returns. -/
theorem Node.run_early {p : Program} (hp : Program.ofCode .early .offering = .ok p) : ∃ v m,
    p.run ((Host.offering ⟨64, .sequential⟩).answer 3 0) .primed = .ok v m ∧
      m.printed = #["1\n"] := by
  have h : (Program.ofCode .early .offering).toOption.any (fun p =>
      okWith (fun _ m => m.printed == #["1\n"])
        (p.run ((Host.offering ⟨64, .sequential⟩).answer 3 0) .primed)) = true := by
    decide +kernel
  rw [hp] at h
  obtain ⟨v, m, hrun, hm⟩ := exists_of_okWith h
  exact ⟨v, m, hrun, eq_of_beq hm⟩

/-- A function may be called before it is declared. No order of the blocks makes this an internal
error, and one of the runs prints what the function returns. -/
theorem Node.never_internal_early : ∃ p, Program.ofCode .early .offering = .ok p ∧
    (∀ {depth err m'}, Work.Steps (.offering ⟨64, .sequential⟩) false (.boot p, .primed)
      (.ended depth (.error err), m') → err.isInternal = false) ∧
    ∃ depth v m', Work.Steps (.offering ⟨64, .sequential⟩) false (.boot p, .primed)
      (.ended depth (.ok v), m') ∧ m'.printed = #["1\n"] := by
  have hc : Node.early.compile Environment.offering.idOf? = .ok Code.early := by decide +kernel
  obtain ⟨p, hp, hi, -⟩ := Node.never_internal (by decide) (by decide) hc
    (Environment.ready_offering ⟨64, .sequential⟩ fun _ => default)
  obtain ⟨v, m, hrun, hprinted⟩ := Node.run_early hp
  obtain ⟨depth, hsteps⟩ := Program.steps_of_run (.of_ok hrun)
  refine ⟨p, hp, fun {depth err m'} hs => ?_, depth, v, m, hsteps, hprinted⟩
  by_contra he
  obtain ⟨c₁, n, number, args, -, -, -, -, hr⟩ := hi hs (Bool.not_eq_false _ ▸ he)
  exact he (Host.function_offering_fails _ number args err hr)

end Dataflow
