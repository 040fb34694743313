import Dataflow.Proofs.Run.Invariant

/-!
# What is read has been written

* `Job.Offers.safe`, `Work.Offers.safe`: what is offered may be done;
* `Work.Offers.keeps`: going on keeps what holds of everything under way;
* `State.Fine`: what holds in every interleaved run;
* **`State.Fine.steps`**: it holds to the end.
-/

namespace Dataflow

open Run

variable {P : Graph → Prop} {sites sites' : Nat → Site} {m m' : Machine}

/-- What is known when an operation has been done or has failed. -/
def Op.Answers (sites : Nat → Site) (m : Machine) (sites' : Nat → Site) (m' : Machine) {α : Type}
    (op : Op α) : Except RunError α → Prop
  | .ok a => op.Replies m sites' m' a
  | .error e => sites' = sites ∧ m' = m ∧ op.Declines m e

/-! ## Graphs under way -/

theorem Graph.Reaches.lt {g : Graph} {i j : Nat} (h : g.Reaches i j) (hi : i < g.blocks.length) :
    j < g.blocks.length := by
  rcases h.cases_tail with he | ⟨c, -, hc⟩
  · exact he ▸ hi
  · exact Nat.lt_of_lt_of_le hc.2.1 (List.takeWhile_sublist _).length_le

theorem Graph.finished_of_unfinished_eq_nil {g : Graph} {jobs : Nat → Job}
    (h : g.unfinished jobs = []) {i : Nat} (hi : i < g.blocks.length) : jobs i = .finished := by
  rw [Graph.unfinished, List.filter_eq_nil_iff] at h
  have hx := h i (List.mem_range.mpr hi)
  cases hj : jobs i with
  | finished => rfl
  | _ =>
    rw [hj] at hx
    exact (hx rfl).elim

namespace LevelFine

variable {g : Graph} {f : Frame} {jobs : Nat → Job} {i : Nat} {b : Block}

theorem activation (hl : LevelFine sites m g f jobs) (hm : m.Fine sites) :
    ∃ a outer, m.activations[f.scope]? = some a ∧ a.Fine sites m f.scope g outer := by
  obtain ⟨g', outer', haf⟩ := hm.activation (Array.getElem?_eq_getElem hl.scope)
  obtain ⟨outer, ho⟩ := hl.levels
  have he := haf.levels.symm.trans ho
  simp only [List.cons.injEq] at he
  obtain ⟨rfl, rfl⟩ := he
  exact ⟨_, _, Array.getElem?_eq_getElem hl.scope, haf⟩

theorem isSome_of_finished (hl : LevelFine sites m g f jobs) (hf : jobs i = .finished) :
    (m.slot? f.scope (g.slot (g.params.toNat + i))).isSome = true := by
  by_cases hi : i < g.blocks.length
  · exact (hl.finished_iff hi).mp hf
  · rw [hl.outside (Nat.le_of_not_lt hi)] at hf
    cases hf

theorem slot?_eq_none (hl : LevelFine sites m g f jobs) (hb : g.blocks[i]? = some b)
    (hf : jobs i ≠ .finished) : m.slot? f.scope (g.slot (g.params.toNat + i)) = none := by
  have hi := (List.getElem?_eq_some_iff.mp hb).1
  rw [← Option.not_isSome_iff_eq_none]
  exact fun h => hf ((hl.finished_iff hi).mpr h)

theorem found (hl : LevelFine sites m g f jobs) (hm : m.Fine sites) {i' : ValueId}
    {is : List Instruction} (hb : g.blocks[i]? = some (.steps i' is))
    (hrun : (jobs i).isRunning = true) {id : ValueId} (hid : id ∈ (Block.steps i' is).needs)
    (h0 : 0 ≤ id) : Found sites m id f.scope := by
  obtain ⟨a, outer, ha, haf⟩ := hl.activation hm
  have hi : g.functionCount ≤ i := by
    refine Nat.le_of_not_lt fun hlt => ?_
    cases (haf.built.level.isFunction_iff hb).mpr hlt
  exact hm.found_of_needs ha haf hb hi (fun k hk => hl.isSome_of_finished (hl.free hrun k hk)) hid h0

/-- When all blocks have their values, that of the graph can be read. -/
theorem result (hl : LevelFine sites m g f jobs) (hm : m.Fine sites) {id : ValueId}
    (hr : g.result? = some id) (hu : g.unfinished jobs = []) :
    ∃ s, m.slot? f.scope id = some s ∧ s.Fine sites m f.scope := by
  obtain ⟨a, outer, ha, haf⟩ := hl.activation hm
  have hdone {j : Nat} (hj : j < g.blocks.length) :
      (m.slot? f.scope (g.slot (g.params.toNat + j))).isSome = true :=
    (hl.finished_iff hj).mp (Graph.finished_of_unfinished_eq_nil hu hj)
  obtain ⟨b, hlast, rfl⟩ := Option.map_eq_some_iff.mp hr
  rw [List.getLast?_eq_getElem?] at hlast
  have hlt := (List.getElem?_eq_some_iff.mp hlast).1
  obtain ⟨s, hs⟩ := Option.isSome_iff_exists.mp (hdone hlt)
  rw [haf.id_eq hlast]
  refine ⟨s, hs, ?_⟩
  rw [Machine.slot?_eq_of_activation ha] at hs
  cases b with
  | steps i' is => exact haf.value hlast hs
  | function i' body =>
    rw [haf.function hlast hs]
    refine Machine.Fine.function_fine hl.scope haf hlast fun j hj => hdone ?_
    exact hj.lt hlt

end LevelFine

theorem Graph.Free.update {g : Graph} {jobs : Nat → Job} {i j : Nat} (hf : g.Free jobs j)
    (hi : jobs i ≠ .finished) (x : Job) : g.Free (Function.update jobs i x) j := by
  intro l hl
  have hj := hf l hl
  have hne : l ≠ i := by
    rintro rfl
    exact hi hj
  rw [Function.update_of_ne hne, hj]

/-- One block goes on. -/
theorem LevelFine.update {g : Graph} {f : Frame} {jobs : Nat → Job} {i : Nat} {b : Block} {x : Job}
    (hl : LevelFine sites m g f jobs) (hg : Grows sites m sites' m') (hb : g.blocks[i]? = some b)
    (hi : jobs i ≠ .finished)
    (hothers : ∀ j < g.blocks.length, j ≠ i → m'.slot? f.scope (g.slot (g.params.toNat + j)) =
      m.slot? f.scope (g.slot (g.params.toNat + j)))
    (hown : x = .finished ↔
      (m'.slot? f.scope (g.slot (g.params.toNat + i))).isSome = true)
    (hrun : x.isRunning = true → g.Free jobs i) (hs : x.Suits sites' m' f b) :
    LevelFine sites' m' g f (Function.update jobs i x) := by
  have hlt := (List.getElem?_eq_some_iff.mp hb).1
  refine ⟨Nat.lt_of_lt_of_le hl.scope hg.size_le, ?_, ?_, fun {j} hj => ?_, fun {j} hj => ?_,
    fun {j} hj => ?_, fun {j b'} hb' => ?_⟩
  · rw [hg.sites hl.scope]
    exact hl.levels
  · rw [hg.sites hl.scope]
    exact hl.unit
  · by_cases he : j = i
    · rw [he, Function.update_self]
      exact hown
    · rw [Function.update_of_ne he, hothers j hj he]
      exact hl.finished_iff hj
  · rw [Function.update_of_ne (by omega)]
    exact hl.outside hj
  · by_cases he : j = i
    · subst he
      rw [Function.update_self] at hj
      exact (hrun hj).update hi x
    · rw [Function.update_of_ne he] at hj
      exact (hl.free hj).update hi x
  · by_cases he : j = i
    · subst he
      rw [hb] at hb'
      cases hb'
      rw [Function.update_self]
      exact hs
    · rw [Function.update_of_ne he]
      exact (hl.suits hb').grow hg

/-- One block goes on, and its value is not there yet. -/
theorem LevelFine.resumed {g : Graph} {f : Frame} {jobs : Nat → Job} {i : Nat} {b : Block} {x : Job}
    (hl : LevelFine sites m g f jobs) (hg : Grows sites m sites' m')
    (ha : m'.activations[f.scope]? = m.activations[f.scope]?) (hb : g.blocks[i]? = some b)
    (hi : jobs i ≠ .finished) (hx : x ≠ .finished) (hrun : x.isRunning = true → g.Free jobs i)
    (hs : x.Suits sites' m' f b) : LevelFine sites' m' g f (Function.update jobs i x) := by
  have hslot (id : ValueId) : m'.slot? f.scope id = m.slot? f.scope id := by
    unfold Machine.slot?
    rw [ha]
  refine hl.update hg hb hi (fun j _ _ => hslot _) ?_ hrun hs
  rw [hslot, hl.slot?_eq_none hb hi]
  exact ⟨fun h => (hx h).elim, nofun⟩

/-- The value of a block has been written. -/
theorem LevelFine.stored {g : Graph} {f : Frame} {jobs : Nat → Job} {i : Nat} {b : Block} {s : Slot}
    (hl : LevelFine sites m g f jobs) (hm : m.Fine sites) (hg : Grows sites m sites' m')
    (hb : g.blocks[i]? = some b) (hi : jobs i ≠ .finished)
    (hr : ∀ id, m'.slot? f.scope id = if id = b.id then some s else m.slot? f.scope id) :
    LevelFine sites' m' g f (Function.update jobs i .finished) := by
  obtain ⟨a, outer, ha, haf⟩ := hl.activation hm
  have hlt := (List.getElem?_eq_some_iff.mp hb).1
  refine hl.update hg hb hi (fun j hj hji => ?_) ?_ nofun trivial
  · rw [hr, if_neg]
    rw [haf.id_eq hb]
    intro he
    have := haf.fits.slot_inj (by unfold Level.slotCount; omega) (by unfold Level.slotCount; omega) he
    omega
  · rw [hr, if_pos (haf.id_eq hb).symm]
    simp

/-! ## One block -/

theorem Block.mem_needs_of_suffix {i : ValueId} {is rest : List Instruction} {x : Instruction}
    {id : ValueId} (h : x :: rest <:+ is) (hx : x.operand? = some id) :
    id ∈ (Block.steps i is).needs := by
  rw [Block.needs]
  exact List.mem_filterMap.mpr ⟨x, h.subset (by simp), hx⟩

theorem Job.Fine.of_not_working {j : Job} (h : ∀ w, j ≠ .working w) : j.Fine P sites m := by
  cases j with
  | working w => exact (h w rfl).elim
  | _ =>
    rw [Job.Fine]
    trivial

theorem Job.not_uses_of_not_working {j : Job} (h : ∀ w, j ≠ .working w) {scope : Nat} :
    ¬ j.Uses scope := by
  cases j with
  | working w => exact (h w rfl).elim
  | _ =>
    rw [Job.Uses]
    exact id

namespace Job.Offers

variable {g : Graph} {f : Frame} {jobs : Nat → Job} {i : Nat} {b : Block} {α : Type} {op : Op α}
  {k : Except RunError α → Job}

theorem isRunning {id : ValueId} {j : Job} (ho : j.Offers f id op k) : j.isRunning = true := by
  cases ho <;> rfl

theorem eq_of_writes {id : ValueId} {j : Job} (ho : j.Offers f id op k) {scope : Nat}
    (hw : op.Writes scope) : f.scope = scope := by
  cases ho with
  | put s => exact hw
  | _ => exact hw.elim

/-- What a block reads has been written, and what it writes has not. -/
theorem safe (hl : LevelFine sites m g f jobs) (hm : m.Fine sites) (hb : g.blocks[i]? = some b)
    (ho : (jobs i).Offers f b.id op k) : op.Safe P sites m := by
  have hs := hl.suits hb
  have hrun := ho.isRunning
  have hneed {i' : ValueId} {is rest : List Instruction} {x : Instruction} {id : ValueId}
      (hb : g.blocks[i]? = some (.steps i' is)) (hx : x :: rest <:+ is)
      (hi : x.operand? = some id) : (Op.find f id).Safe P sites m :=
    ⟨⟨hl.scope, hl.unit⟩, hl.found hm hb hrun (Block.mem_needs_of_suffix hx hi)⟩
  have hput {s : Slot} (hj : jobs i = .storing s) : (Op.put f.scope b.id s).Safe P sites m := by
    obtain ⟨a, outer, ha, haf⟩ := hl.activation hm
    refine ⟨a, g, outer, i, b, ha, haf, hb, rfl, ?_, ?_⟩
    · rw [haf.id_eq hb]
      exact hl.slot?_eq_none hb (by rw [hj]; nofun)
    · rw [hj] at hs
      cases b with
      | steps i' is => exact hs
      | function i' body =>
        refine ⟨by rw [hl.unit]; exact hs, fun k hk hkv => ?_⟩
        have hif : i < g.functionCount := (haf.built.level.isFunction_iff hb).mp rfl
        refine hl.isSome_of_finished (hl.free hrun k (haf.built.level.waiting_iff.mpr ?_))
        exact ⟨by omega, .inr (.inr ⟨hif, hkv, i, .refl, hk⟩)⟩
  generalize hj : jobs i = j at ho hs
  cases ho with
  | put s => exact hput hj
  | argument | call | field | copy =>
    cases b with
    | steps i' is => exact hneed hb hs.2 rfl
    | function i' body => exact hs.elim
  | constant | name => exact ⟨hl.scope, hl.unit⟩
  | stuck | done | fail => trivial

/-- A block goes on with what it was given. -/
theorem keeps (hl : LevelFine sites m g f jobs) (hm : m.Fine sites) (hb : g.blocks[i]? = some b)
    (hf : (jobs i).Fine P sites m) (ho : (jobs i).Offers f b.id op k)
    (hk : op.Kept P sites m sites' m') {r : Except RunError α}
    (hr : op.Answers sites m sites' m' r) :
    LevelFine sites' m' g f (Function.update jobs i (k r)) ∧ (k r).Fine P sites' m' ∧
      ∀ scope, ¬ (k r).Uses scope := by
  have hs := (hl.suits hb).grow hk.grows
  have hrun := ho.isRunning
  have hne : jobs i ≠ .finished := by
    intro he
    rw [he] at hrun
    cases hrun
  have plain {x : Job} (hw : ¬ op.Writes f.scope) (hx : x ≠ .finished)
      (hp : ∀ w, x ≠ .working w) (hs : x.Suits sites' m' f b) :
      LevelFine sites' m' g f (Function.update jobs i x) ∧ x.Fine P sites' m' ∧
        ∀ scope, ¬ x.Uses scope :=
    ⟨hl.resumed hk.grows (hk.others _ hl.scope hw) hb hne hx (fun _ => hl.free hrun) hs,
      .of_not_working hp, fun _ => Job.not_uses_of_not_working hp⟩
  have script {s : Script Value} (hw : ¬ op.Writes f.scope)
      (hj : ∀ w, (Job.working w).Suits sites' m' f b) (hs : s.Fine sites' m') :
      LevelFine sites' m' g f (Function.update jobs i (.working (.script f.depth s))) ∧
        (Job.working (.script f.depth s)).Fine P sites' m' ∧
        ∀ scope, ¬ (Job.working (.script f.depth s)).Uses scope := by
    refine ⟨hl.resumed hk.grows (hk.others _ hl.scope hw) hb hne nofun (fun _ => hl.free hrun)
      (hj _), ?_, fun scope hu => ?_⟩
    · rw [Job.Fine, Work.Fine]
      exact hs
    · rwa [Job.Uses, Work.Uses] at hu
  generalize hj : jobs i = j at ho hs hf
  cases ho with
  | put s =>
    cases r with
    | error e => exact hr.2.2.elim
    | ok u =>
      exact ⟨hl.stored hm hk.grows hb hne hr, .of_not_working (j := .finished) nofun,
        fun _ => Job.not_uses_of_not_working (j := .finished) nofun⟩
  | stuck args h => exact plain id nofun nofun trivial
  | fail depth e => exact plain id nofun nofun trivial
  | done depth v =>
    rw [Job.Fine, Work.Fine] at hf
    cases hf (.refl _) with
    | done hv =>
      cases b with
      | steps i' is => exact plain id nofun nofun (Slot.fine_keep (hk.grows.value hv))
      | function => exact hs.elim
  | name v name form =>
    cases r with
    | error e => exact plain id nofun nofun trivial
    | ok text =>
      cases b with
      | steps i' is => exact script id (fun _ => trivial) fun hL => (hs.mono hL).select text form
      | function => exact hs.elim
  | argument args a rest =>
    cases r with
    | error e => exact plain id nofun nofun trivial
    | ok v =>
      cases b with
      | steps i' is =>
        exact plain id nofun nofun ⟨.cons hr hs.1, (List.suffix_cons _ _).trans hs.2⟩
      | function => exact hs.elim
  | call args a rest =>
    cases r with
    | error e => exact plain id nofun nofun trivial
    | ok v =>
      cases b with
      | steps i' is =>
        exact script id (fun _ => trivial) fun hL =>
          (Value.Related.mono hL hr).apply (Value.allRelated_mono hL (List.rel_reverse hs.1))
      | function => exact hs.elim
  | field args a name form rest =>
    cases r with
    | error e => exact plain id nofun nofun trivial
    | ok v =>
      cases b with
      | steps i' is => exact plain id nofun nofun hr
      | function => exact hs.elim
  | copy args a rest | constant args c rest =>
    cases r with
    | error e => exact plain id nofun nofun trivial
    | ok v =>
      cases b with
      | steps i' is => exact plain id nofun nofun (Slot.fine_keep hr)
      | function => exact hs.elim

end Job.Offers

/-! ## Requests -/

theorem Script.Fine.fail (e : RunError) : (Script.fail e : Script Value).Fine sites m :=
  fun _ => .fail e

theorem Work.fine_fail (P : Graph → Prop) (e : RunError) : (Work.fail e).Fine P sites m := by
  rw [Work.fail, Work.Fine]
  exact Script.Fine.fail e

/-- The call of a fine closure. -/
theorem Closure.Fine.callable (hm : m.Fine sites) {c : Closure} (hc : c.Fine sites m)
    {args : List Value} (ha : Value.AllRelated (Link.same sites m) args args)
    (hl : args.length = c.graph.params.toNat) :
    Callable P sites m c.graph c.unit (some c.scope) args := by
  obtain ⟨hs, hu, g, outer, j, hlevels, hb, hr⟩ := hc
  obtain ⟨g', outer', haf⟩ := hm.activation (Array.getElem?_eq_getElem hs)
  have he := haf.levels.symm.trans hlevels
  simp only [List.cons.injEq] at he
  obtain ⟨rfl, rfl⟩ := he
  refine ⟨haf.built.body hb, hl, ha, hu ▸ hm.unit hs, nofun, fun hp => ?_⟩
  cases hp
  exact ⟨hs, hu, _, _, j, _, hlevels, hb, hr⟩

/-- What a call with fine values comes to. -/
theorem Host.Fine.called {h : Host} (hh : h.Fine P sites m) (hm : m.Fine sites) (depth : Nat)
    {f : Function} {args : List Value}
    (hr : Request.Related (Link.same sites m) (.call f args) (.call f args)) :
    (h.called depth f args).Fine P sites m := by
  obtain ⟨hf, ha⟩ : Function.Related (Link.same sites m) f f ∧
      Value.AllRelated (Link.same sites m) args args := by
    cases hr with
    | call hf ha => exact ⟨hf, ha⟩
  cases f with
  | native n =>
    unfold Host.called
    dsimp only
    split
    · rw [Work.Fine]
      intro L _ hL
      unfold Host.scriptOf
      cases n.body with
      | builtin b => exact b.script_related (Value.allRelated_mono hL ha)
      | host number => exact hh.functions (Value.allRelated_mono hL ha) number
    · exact Work.fine_fail P _
  | method identity receiver method =>
    unfold Host.called
    dsimp only
    split
    · rw [Work.Fine]
      intro L _ hL
      cases hf with
      | method _ _ hv =>
        exact method.script_related (hv.mono hL) (Value.allRelated_mono hL ha) (.inl inferInstance)
    · exact Work.fine_fail P _
  | closure identity c =>
    unfold Host.called
    dsimp only
    split
    case isFalse => exact Work.fine_fail P _
    case isTrue hl =>
      split
      · exact Work.fine_fail P _
      · rw [Work.Fine]
        cases hf with
        | closure _ hc => exact hc.2.callable hm ha hl

/-- What is loaded. -/
theorem Host.Fine.loaded {h : Host} (hh : h.Fine P sites m) {loader : String → Loaded}
    (hl : h.loader? = some loader) (target : String) :
    (Host.loaded target (loader target)).Fine P sites m := by
  cases ht : loader target with
  | value v =>
    rw [Host.loaded, Work.Fine]
    exact fun hL => .done ((hh.value hl ht).mono hL)
  | failed message => exact Work.fine_fail P _
  | dropped => exact Work.fine_fail P _
  | program p quiet =>
    rw [Host.loaded, Work.Fine, Work.Fine]
    exact hh.program hl ht

/-- Nothing is under way yet in what a call or a load comes to. -/
theorem Host.called_not_uses (h : Host) (depth : Nat) (f : Function) (args : List Value)
    (scope : Nat) : ¬ (h.called depth f args).Uses scope := by
  unfold Host.called
  repeat' split
  all_goals
    simp only [Work.fail, Work.Uses, not_false_eq_true]

theorem Host.loaded_not_uses (target : String) (l : Loaded) (scope : Nat) :
    ¬ (Host.loaded target l).Uses scope := by
  cases l <;> simp only [Host.loaded, Work.fail, Work.Uses, not_false_eq_true]

/-- What is under way without any activation is apart. -/
theorem Work.Apart.of_not_uses {w : Work} (h : ∀ scope, ¬ w.Uses scope) : w.Apart := by
  match w with
  | .script .. | .boot _ | .call .. =>
    rw [Work.Apart]
    trivial
  | .bind _ inner _ | .load _ _ inner =>
    rw [Work.Apart]
    exact Work.Apart.of_not_uses fun scope hu => h scope (by rwa [Work.Uses])
  | .level _ f _ _ => exact (h f.scope (by rw [Work.Uses]; exact .inl rfl)).elim

theorem Job.Apart.of_not_uses {j : Job} (h : ∀ scope, ¬ j.Uses scope) : j.Apart := by
  cases j with
  | working w =>
    rw [Job.Apart]
    exact .of_not_uses fun scope hu => h scope (by rwa [Job.Uses])
  | _ =>
    rw [Job.Apart]
    trivial

/-! ## Everything under way -/

/-- Something under way has gone on. -/
structure Work.Goes (P : Graph → Prop) (sites : Nat → Site) (m : Machine) (sites' : Nat → Site)
    (m' : Machine) (w w' : Work) : Prop where
  fine : w'.Fine P sites' m'
  apart : w'.Apart
  uses : ∀ scope, w'.Uses scope → w.Uses scope ∨ m.activations.size ≤ scope

namespace Work.Goes

theorem of_not_uses {w w' : Work} (hf : w'.Fine P sites' m') (hn : ∀ scope, ¬ w'.Uses scope) :
    Work.Goes P sites m sites' m' w w' :=
  ⟨hf, .of_not_uses hn, fun scope hu => (hn scope hu).elim⟩

theorem script {w : Work} (depth : Nat) {s : Script Value} (hs : s.Fine sites' m') :
    Work.Goes P sites m sites' m' w (.script depth s) :=
  .of_not_uses (by rw [Work.Fine]; exact hs) fun scope hu => by rwa [Work.Uses] at hu

theorem fail {w : Work} (e : RunError) : Work.Goes P sites m sites' m' w (.fail e) :=
  .script 0 (Script.Fine.fail e)

/-- One block of a graph goes on. -/
theorem level {g : Graph} {f : Frame} {jobs : Nat → Job} {failure failure' : Option RunError}
    {i : Nat} {x : Job} {α : Type} {op : Op α}
    (hw : (Work.level g f jobs failure).Fine P sites m) (ha : (Work.level g f jobs failure).Apart)
    (hk : op.Kept P sites m sites' m')
    (hwrites : ∀ scope, op.Writes scope → f.scope = scope ∨ (jobs i).Uses scope)
    (hl : LevelFine sites' m' g f (Function.update jobs i x)) (hx : x.Fine P sites' m')
    (hxa : x.Apart)
    (hxu : ∀ scope, x.Uses scope → (jobs i).Uses scope ∨ m.activations.size ≤ scope) :
    Work.Goes P sites m sites' m' (.level g f jobs failure)
      (.level g f (Function.update jobs i x) failure') := by
  rw [Work.Fine] at hw
  rw [Work.Apart] at ha
  obtain ⟨hlevel, hjobs⟩ := hw
  obtain ⟨hown, hpairs⟩ := ha
  have hlt {j scope : Nat} (hu : (jobs j).Uses scope) : scope < m.activations.size :=
    Job.Fine.uses_lt (hjobs j) hu
  have hother {j scope : Nat} (hj : j ≠ i) (hu : (jobs j).Uses scope) : ¬ x.Uses scope := by
    intro hux
    rcases hxu scope hux with hi | hge
    · exact hpairs j i hj scope hu hi
    · exact Nat.not_lt.mpr hge (hlt hu)
  refine ⟨?_, ?_, fun scope hu => ?_⟩
  · rw [Work.Fine]
    refine ⟨hl, fun j => ?_⟩
    by_cases hj : j = i
    · rw [hj, Function.update_self]
      exact hx
    · rw [Function.update_of_ne hj]
      refine Job.Fine.grow (hjobs j) hk.grows fun scope hu => hk.others scope (hlt hu) fun hwr => ?_
      rcases hwrites scope hwr with rfl | hi
      · exact (hown j).2 hu
      · exact hpairs j i hj scope hu hi
  · rw [Work.Apart]
    refine ⟨fun j => ?_, fun j l hjl scope hu hu' => ?_⟩
    · by_cases hj : j = i
      · rw [hj, Function.update_self]
        refine ⟨hxa, fun hu => ?_⟩
        rcases hxu _ hu with hi | hge
        · exact (hown i).2 hi
        · exact Nat.not_lt.mpr hge hlevel.scope
      · rw [Function.update_of_ne hj]
        exact hown j
    · by_cases hj : j = i
      · subst hj
        rw [Function.update_self] at hu
        rw [Function.update_of_ne (Ne.symm hjl)] at hu'
        exact hother (Ne.symm hjl) hu' hu
      · rw [Function.update_of_ne hj] at hu
        by_cases hl : l = i
        · rw [hl, Function.update_self] at hu'
          exact hother hj hu hu'
        · rw [Function.update_of_ne hl] at hu'
          exact hpairs j l hjl scope hu hu'
  · rw [Work.Uses] at hu ⊢
    rcases hu with rfl | ⟨j, hu⟩
    · exact .inl (.inl rfl)
    · by_cases hj : j = i
      · rw [hj, Function.update_self] at hu
        exact (hxu scope hu).imp_left fun hu => .inr ⟨i, hu⟩
      · rw [Function.update_of_ne hj] at hu
        exact .inl (.inr ⟨j, hu⟩)

/-- What goes on with an answer goes on as before. -/
theorem bind {w w' : Work} (depth : Nat) {next : Except RunError Value → Script Value}
    (hi : Work.Goes P sites m sites' m' w w') (hn : NextFine sites' m' next) :
    Work.Goes P sites m sites' m' (.bind depth w next) (.bind depth w' next) := by
  refine ⟨?_, ?_, fun scope hu => ?_⟩
  · rw [Work.Fine]
    exact ⟨hi.fine, hn⟩
  · rw [Work.Apart]
    exact hi.apart
  · rw [Work.Uses] at hu ⊢
    exact hi.uses scope hu

theorem load {w w' : Work} (target : String) (quiet : Bool)
    (hi : Work.Goes P sites m sites' m' w w') :
    Work.Goes P sites m sites' m' (.load target quiet w) (.load target quiet w') := by
  refine ⟨?_, ?_, fun scope hu => ?_⟩
  · rw [Work.Fine]
    exact hi.fine
  · rw [Work.Apart]
    exact hi.apart
  · rw [Work.Uses] at hu ⊢
    exact hi.uses scope hu

/-- A request is answered by something in which nothing is under way yet. -/
theorem request {w w' : Work} (depth : Nat) {next : Except RunError Value → Script Value}
    (hf : w'.Fine P sites m) (hu : ∀ scope, ¬ w'.Uses scope) (hg : Grows sites m sites' m')
    (hn : NextFine sites' m' next) :
    Work.Goes P sites m sites' m' w (.bind depth w' next) := by
  refine .of_not_uses ?_ fun scope h => ?_
  · rw [Work.Fine]
    exact ⟨Work.Fine.grow hf hg fun scope h => (hu scope h).elim, hn⟩
  · rw [Work.Uses] at h
    exact hu scope h

/-- A graph is entered, and all its blocks wait. -/
theorem enter {g : Graph} {unit depth : Nat} {parent : Option Nat} {args : List Value} {f : Frame}
    (hr : (Op.enter g unit depth parent args).Replies m sites' m' f) :
    Work.Goes P sites m sites' m' (.call g unit depth parent args)
      (.level g f (fun _ => .waiting) none) := by
  obtain ⟨rfl, hlt, ⟨outer, hsite⟩, hnone⟩ := hr
  have hunused {scope : Nat} : ¬ Job.waiting.Uses scope :=
    Job.not_uses_of_not_working (j := .waiting) nofun
  refine ⟨?_, ?_, fun scope hu => ?_⟩
  · rw [Work.Fine]
    refine ⟨⟨hlt, ⟨outer, by rw [hsite]⟩, by rw [hsite], fun {i} hi => ?_, fun _ => rfl, nofun,
      fun _ => trivial⟩, fun i => .of_not_working (j := .waiting) nofun⟩
    rw [hnone i hi]
    exact ⟨nofun, nofun⟩
  · rw [Work.Apart]
    exact ⟨fun i => ⟨.of_not_uses fun _ => hunused, hunused⟩,
      fun i j _ scope hu => (hunused hu).elim⟩
  · rw [Work.Uses] at hu
    rcases hu with rfl | ⟨i, hu⟩
    · exact .inr (Nat.le_refl _)
    · exact (hunused hu).elim

section Blocks

variable {g : Graph} {f : Frame} {jobs : Nat → Job} {failure failure' : Option RunError} {i : Nat}
  {α : Type} {op : Op α}

/-- A block starts. -/
theorem start {b : Block} (hw : (Work.level g f jobs failure).Fine P sites m)
    (ha : (Work.level g f jobs failure).Apart) (hk : op.Kept P sites m sites' m')
    (hop : ∀ scope, ¬ op.Writes scope) (hb : g.blocks[i]? = some b) (hj : jobs i = .waiting)
    (hf : g.Free jobs i) : Work.Goes P sites m sites' m' (.level g f jobs failure)
      (.level g f (Function.update jobs i (b.start f)) failure') := by
  have hl := hw
  rw [Work.Fine] at hl
  have hplain (w : Work) : b.start f ≠ .working w := by cases b <;> nofun
  have hunused {scope : Nat} : ¬ (b.start f).Uses scope := Job.not_uses_of_not_working hplain
  refine .level hw ha hk (fun scope h => (hop scope h).elim) ?_ (.of_not_working hplain)
    (.of_not_uses fun _ => hunused) fun scope hu => (hunused hu).elim
  refine hl.1.resumed hk.grows (hk.others _ hl.1.scope (hop _)) hb (by rw [hj]; nofun) ?_
    (fun _ => hf) ?_
  · cases b <;> nofun
  · cases b with
    | function i' body => rfl
    | steps i' is => exact ⟨.nil, List.suffix_refl _⟩

/-- The work of a block goes on. -/
theorem work {w w' : Work} (hw : (Work.level g f jobs failure).Fine P sites m)
    (ha : (Work.level g f jobs failure).Apart) (hk : op.Kept P sites m sites' m')
    (hj : jobs i = .working w) (hwrites : ∀ {scope}, op.Writes scope → w.Uses scope)
    (hi : Work.Goes P sites m sites' m' w w') : Work.Goes P sites m sites' m'
      (.level g f jobs failure) (.level g f (Function.update jobs i (.working w')) failure') := by
  have hl := hw
  rw [Work.Fine] at hl
  have hap := ha
  rw [Work.Apart] at hap
  have huses (scope : Nat) : (jobs i).Uses scope ↔ w.Uses scope := by rw [hj, Job.Uses]
  refine .level hw ha hk (fun scope h => .inr ((huses scope).mpr (hwrites h))) ?_ ?_ ?_
    fun scope hu => ?_
  · have hlt : i < g.blocks.length := by
      refine Nat.lt_of_not_le fun hle => ?_
      rw [hl.1.outside hle] at hj
      cases hj
    have hb := List.getElem?_eq_getElem hlt
    have hsuits := hl.1.suits hb
    have hfree : g.Free jobs i := hl.1.free (by rw [hj]; rfl)
    have hapart : ¬ op.Writes f.scope := fun h => (hap.1 i).2 ((huses _).mpr (hwrites h))
    rw [hj] at hsuits
    refine hl.1.resumed hk.grows (hk.others _ hl.1.scope hapart) hb (by rw [hj]; nofun) nofun
      (fun _ => hfree) ?_
    generalize g.blocks[i] = b at hsuits
    cases b with
    | steps i' is => trivial
    | function => exact hsuits.elim
  · rw [Job.Fine]
    exact hi.fine
  · rw [Job.Apart]
    exact hi.apart
  · rw [Job.Uses] at hu
    rw [huses]
    exact hi.uses scope hu

end Blocks

end Work.Goes

namespace Work.Offers

variable {h : Host} {quiet : Bool} {w : Work} {α : Type} {op : Op α} {k : Except RunError α → Work}

/-- What is written belongs to a graph under way. -/
theorem uses_of_writes (ho : Work.Offers h quiet w op k) {scope : Nat} (hw : op.Writes scope) :
    w.Uses scope := by
  induction ho with
  | inner _ _ _ ih | loading _ _ _ ih =>
    rw [Work.Uses]
    exact ih hw
  | work _ _ _ hj _ ih =>
    rw [Work.Uses]
    exact .inr ⟨_, by rw [hj, Job.Uses]; exact ih hw⟩
  | job _ _ _ hj =>
    rw [Work.Uses]
    exact .inl (hj.eq_of_writes hw)
  | _ => exact hw.elim

/-- What is offered may be done. -/
theorem safe (ho : Work.Offers h quiet w op k) (hm : m.Fine sites) (hw : w.Fine P sites m) :
    op.Safe P sites m := by
  induction ho with
  | inner _ _ _ ih =>
    rw [Work.Fine] at hw
    exact ih hw.1
  | loading _ _ _ ih =>
    rw [Work.Fine] at hw
    exact ih hw
  | @work _ _ _ _ _ i _ _ _ _ hj _ ih =>
    rw [Work.Fine] at hw
    have hi := hw.2 i
    rw [hj, Job.Fine] at hi
    exact ih hi
  | job _ _ hb hj =>
    rw [Work.Fine] at hw
    exact hj.safe hw.1 hm hb
  | boot _ p =>
    rw [Work.Fine] at hw
    exact fun id v hv => hw.environment hv
  | enter _ _ _ _ _ hr =>
    rw [Work.Fine] at hw
    refine ⟨hw, ?_⟩
    rintro he
    rw [Graph.result?, he] at hr
    cases hr
  | result _ f hr hf =>
    rw [Work.Fine] at hw
    exact hw.1.result hm hr hf
  | _ => trivial

/-- What is offered goes on with what it was given. -/
theorem keeps (ho : Work.Offers h quiet w op k) (hh : h.Fine P sites m) (hm : m.Fine sites)
    (hw : w.Fine P sites m) (ha : w.Apart) (hk : op.Kept P sites m sites' m')
    {r : Except RunError α} (hr : op.Answers sites m sites' m' r) :
    Work.Goes P sites m sites' m' w (k r) := by
  have hg := hk.grows
  induction ho with
  | print depth text next | mute depth text next =>
    rw [Work.Fine] at hw
    refine .script depth fun hL => ?_
    cases hw (hg.link.trans hL) with
    | print _ hn => exact hn
  | mint quiet depth next =>
    rw [Work.Fine] at hw
    cases r with
    | error e => exact .fail e
    | ok n =>
      refine .script depth fun hL => ?_
      cases hw (hg.link.trans hL) with
      | mint hn => exact hn n n (hL.identity ⟨rfl, hr⟩)
  | depth quiet depth next =>
    rw [Work.Fine] at hw
    refine .script depth fun hL => ?_
    cases hw (hg.link.trans hL) with
    | depth hn => exact hn depth
  | ask quiet depth f args next =>
    rw [Work.Fine] at hw
    have hcalled : (h.called depth f args).Fine P sites m := by
      cases hw (.refl _) with
      | ask hreq _ => exact hh.called hm depth hreq
    refine .request depth hcalled (h.called_not_uses depth f args) hg fun hL _ _ hv => ?_
    cases hw (hg.link.trans hL) with
    | ask _ hn => exact hn _ _ hv
  | noLoader quiet depth target next hl =>
    rw [Work.Fine] at hw
    refine .request depth (Work.fine_fail P _) (fun scope hu => ?_) hg fun hL _ _ hv => ?_
    · rwa [Work.fail, Work.Uses] at hu
    · cases hw (hg.link.trans hL) with
      | ask _ hn => exact hn _ _ hv
  | load quiet depth target next hl =>
    rw [Work.Fine] at hw
    refine .request depth (hh.loaded hl target) (Host.loaded_not_uses target _) hg
      fun hL _ _ hv => ?_
    cases hw (hg.link.trans hL) with
    | ask _ hn => exact hn _ _ hv
  | answered quiet depth depth' v next =>
    rw [Work.Fine, Work.Fine] at hw
    refine .script depth fun hL => ?_
    cases hw.1 (hg.link.trans hL) with
    | done hv => exact hw.2 (hg.link.trans hL) (.ok hv)
  | refused quiet depth depth' e next =>
    rw [Work.Fine] at hw
    exact .script depth fun hL => hw.2 (hg.link.trans hL) (.error e)
  | inner depth next _ ih =>
    rw [Work.Fine] at hw
    rw [Work.Apart] at ha
    exact .bind depth (ih hw.1 ha hk hr) (NextFine.grow hw.2 hg)
  | boot quiet p =>
    cases r with
    | error e => exact .fail e
    | ok unit =>
      rw [Work.Fine] at hw
      refine .of_not_uses ?_ fun scope hu => ?_
      · rw [Work.after, Work.Fine]
        refine ⟨hw.built, ?_, .nil, hr, fun _ => ⟨hw.first, hw.inside⟩, nofun⟩
        rw [hw.params]
        rfl
      · rwa [Work.after, Work.Uses] at hu
  | empty => exact .fail _
  | enter =>
    cases r with
    | error e => exact .fail e
    | ok f => exact .enter hr
  | start quiet f hb hj hf => exact .start hw ha hk (fun _ => id) hb hj hf
  | @job quiet g f jobs failure i b _ _ _ hb hj =>
    have hl := hw
    rw [Work.Fine] at hl
    obtain ⟨hl', hx, hu⟩ := hj.keeps hl.1 hm hb (hl.2 i) hk hr
    exact .level hw ha hk (fun _ h => .inl (hj.eq_of_writes h)) hl' hx (.of_not_uses hu)
      fun scope h => (hu scope h).elim
  | @work quiet g f jobs failure i w _ op _ hj ho ih =>
    have hl := hw
    rw [Work.Fine] at hl
    have hap := ha
    rw [Work.Apart] at hap
    have hin := hl.2 i
    rw [hj, Job.Fine] at hin
    have hia := (hap.1 i).1
    rw [hj, Job.Apart] at hia
    exact .work hw ha hk hj ho.uses_of_writes (ih hin hia hk hr)
  | result quiet f hres hf =>
    cases r with
    | error e => exact .fail e
    | ok v => exact .script _ fun hL => .done (Value.Related.mono hL hr)
  | abort quiet g f e hn => exact .fail e
  | cycle quiet f hn hu hf => exact .fail _
  | loaded quiet quiet' target depth v =>
    rw [Work.Fine, Work.Fine] at hw
    exact .script depth fun hL => hw (hg.link.trans hL)
  | unloaded quiet quiet' target depth e => exact .fail _
  | loading target quiet' _ ih =>
    rw [Work.Fine] at hw
    rw [Work.Apart] at ha
    exact .load target quiet' (ih hw ha hk hr)

end Work.Offers

/-! ## Runs -/

/-- What holds at any time of an interleaved run. -/
structure State.Fine (P : Graph → Prop) (h : Host) (sites : Nat → Site) (c : Work × Machine) :
    Prop where
  host : h.Fine P sites c.2
  machine : c.2.Fine sites
  work : c.1.Fine P sites c.2
  apart : c.1.Apart
  within : Within P sites c.2

theorem Callable.inside {g : Graph} {unit : Nat} {parent : Option Nat} {args : List Value}
    (hP : Inherited P) (hc : Callable P sites m g unit parent args) (hin : Within P sites m) :
    P g := by
  cases parent with
  | none => exact (hc.of_none rfl).2
  | some p =>
    obtain ⟨hp, -, g', outer, j, id, hl, hb, -⟩ := hc.of_some rfl
    exact hP (hin p hp g' (by simp [hl])) hb

namespace State.Fine

variable {h : Host} {quiet : Bool} {w : Work} {α : Type} {op : Op α} {k : Except RunError α → Work}

/-- One step: what is offered is done, or it fails for one of the reasons it may have. -/
theorem run_cases (hP : Inherited P) (hc : State.Fine P h sites (w, m))
    (ho : Work.Offers h quiet w op k) (hf : op.Fits) :
    (∃ a m' sites', op.run m = .ok a m' ∧ op.Kept P sites m sites' m' ∧
      State.Fine P h sites' (k (.ok a), m')) ∨
    ∃ e, op.run m = .error (.error e) m ∧ op.Declines m e ∧
      State.Fine P h sites (k (.error e), m) := by
  have hm : m.Fine sites := hc.machine
  rcases Op.run_cases hP hm (ho.safe hm hc.work) hf with ⟨a, m', sites', hr, hk, ha⟩ | ⟨e, hr, he⟩
  · have hg := ho.keeps hc.host hm hc.work hc.apart hk (r := .ok a) ha
    exact .inl ⟨a, m', sites', hr, hk, hc.host.grow hk.grows, hk.fine, hg.fine, hg.apart,
      hk.within hc.within⟩
  · have hk : op.Kept P sites m sites m := .refl op hm
    have hg := ho.keeps hc.host hm hc.work hc.apart hk (r := .error e) ⟨rfl, rfl, he⟩
    exact .inr ⟨e, hr, he, hc.host, hm, hg.fine, hg.apart, hc.within⟩

/-- What is entered fits when all levels do. -/
theorem fits (hP : Inherited P) (hfit : ∀ {g : Graph}, P g → g.Fits)
    (hc : State.Fine P h sites (w, m)) (ho : Work.Offers h quiet w op k) : op.Fits := by
  have hs := ho.safe hc.machine hc.work
  cases op with
  | enter g unit depth parent args => exact hfit (hs.1.inside hP hc.within)
  | _ => trivial

theorem step (hP : Inherited P) (hfit : ∀ {g : Graph}, P g → g.Fits) {c c' : Work × Machine}
    (hc : State.Fine P h sites c) (hs : Work.Step h quiet c c') :
    ∃ sites', Grows sites c.2 sites' c'.2 ∧ State.Fine P h sites' c' := by
  cases hs with
  | intro ho hr =>
    rcases hc.run_cases hP ho (hc.fits hP hfit ho) with
      ⟨a, m', sites', hrun, hk, hc'⟩ | ⟨e, hrun, -, hc'⟩
    · rw [hrun] at hr
      cases hr
      exact ⟨sites', hk.grows, hc'⟩
    · rw [hrun] at hr
      cases hr
      exact ⟨sites, .refl _ _, hc'⟩

/-- What holds at the start of an interleaved run holds at any time of it. -/
theorem steps (hP : Inherited P) (hfit : ∀ {g : Graph}, P g → g.Fits) {c c' : Work × Machine}
    (hc : State.Fine P h sites c) (hs : Work.Steps h quiet c c') :
    ∃ sites', Grows sites c.2 sites' c'.2 ∧ State.Fine P h sites' c' := by
  induction hs with
  | refl => exact ⟨sites, .refl _ _, hc⟩
  | tail _ hs ih =>
    obtain ⟨sites₁, hg₁, hc₁⟩ := ih
    obtain ⟨sites₂, hg₂, hc₂⟩ := hc₁.step hP hfit hs
    exact ⟨sites₂, hg₁.trans hg₂, hc₂⟩

end State.Fine

end Dataflow
