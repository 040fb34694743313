import Dataflow.Proofs.Run.Keeping

/-!
# What holds in every interleaved run

The values in everything under way are fine, the blocks that have started have all that they wait
for, and no two graphs under way share an activation. Every step keeps this.

* `Host.Fine`: what is asked of a host;
* `Work.Fine`, `Work.Apart`: the invariant of what is under way;
* `Op.Safe`: when an operation may be done;
* `Op.Kept`, `Op.Replies`, `Op.Declines`: what it leaves behind, what it answers, and why it can fail
  all the same;
* **`Op.run_cases`**: what comes of an operation that may be done.
-/

namespace Dataflow

open Run

/-! ## Scripts, programs and hosts -/

/-- A script that treats values alike that stand for each other. -/
def Script.Fine (sites : Nat → Site) (m : Machine) (s : Script Value) : Prop :=
  ∀ {L : Link} [L.Exact], (Link.same sites m).Le L → Script.Alike L s s

/-- What follows an answer treats values alike that stand for each other. -/
def NextFine (sites : Nat → Site) (m : Machine) (next : Except RunError Value → Script Value) :
    Prop :=
  ∀ {L : Link} [L.Exact], (Link.same sites m).Le L → ∀ {x x'}, Agree (Value.Related L) x x' →
    Script.Alike L (next x) (next x')

/-- A program that was built, its environment holding fine values. All graphs of programs are to
have the property `P`. -/
structure Program.Fine (P : Graph → Prop) (sites : Nat → Site) (m : Machine) (p : Program) :
    Prop where
  built : p.graph.Built
  first : p.graph.first = 0
  params : p.graph.params = 0
  inside : P p.graph
  environment : ∀ {id v}, p.environment.get? id = some v → v.Fine sites m

/-- A host whose functions treat values alike that stand for each other, and from which fine values
and programs can be loaded. -/
structure Host.Fine (P : Graph → Prop) (sites : Nat → Site) (m : Machine) (h : Host) : Prop where
  functions : ∀ {L : Link} [L.Exact] {vs vs' : List Value}, Value.AllRelated L vs vs' →
    ∀ number : Nat, Script.Alike L (h.function number vs) (h.function number vs')
  value : ∀ {loader target v}, h.loader? = some loader → loader target = .value v → v.Fine sites m
  program : ∀ {loader target p quiet}, h.loader? = some loader →
    loader target = .program p quiet → p.Fine P sites m

section Grows

variable {P : Graph → Prop} {sites sites' : Nat → Site} {m m' : Machine}

theorem Script.Fine.grow {s : Script Value} (hs : s.Fine sites m) (h : Grows sites m sites' m') :
    s.Fine sites' m' := fun hL => hs (h.link.trans hL)

theorem NextFine.grow {next : Except RunError Value → Script Value}
    (hn : NextFine sites m next) (h : Grows sites m sites' m') : NextFine sites' m' next :=
  fun hL _ _ => hn (h.link.trans hL)

theorem Program.Fine.grow {p : Program} (hp : p.Fine P sites m) (h : Grows sites m sites' m') :
    p.Fine P sites' m' :=
  ⟨hp.built, hp.first, hp.params, hp.inside, fun hv => h.value (hp.environment hv)⟩

theorem Host.Fine.grow {h : Host} (hh : h.Fine P sites m) (hg : Grows sites m sites' m') :
    h.Fine P sites' m' :=
  ⟨hh.functions, fun hl ht => hg.value (hh.value hl ht), fun hl ht => (hh.program hl ht).grow hg⟩

theorem Callable.grow {g : Graph} {unit : Nat} {parent : Option Nat} {args : List Value}
    (hc : Callable P sites m g unit parent args) (h : Grows sites m sites' m')
    (hi : m.images.size ≤ m'.images.size) : Callable P sites' m' g unit parent args := by
  refine ⟨hc.built, hc.length, Value.allRelated_mono h.link hc.args_fine,
    Nat.lt_of_lt_of_le hc.unit_lt hi, hc.of_none, fun hp => ?_⟩
  obtain ⟨hlt, hu, g', outer, j, id, hl, hb, hr⟩ := hc.of_some hp
  refine ⟨Nat.lt_of_lt_of_le hlt h.size_le, ?_, g', outer, j, id, ?_, hb, h.ready hr⟩
  · rw [h.sites hlt, hu]
  · rw [h.sites hlt, hl]

theorem Grows.images_size (h : Grows sites m sites' m') : m.images.size ≤ m'.images.size := by
  refine Nat.le_of_not_lt fun hlt => ?_
  have hi := h.images (Array.getElem?_eq_getElem hlt)
  rw [Array.getElem?_eq_none (Nat.le_refl _)] at hi
  cases hi

end Grows

/-! ## What is under way -/

/-- What a block that does something has at hand. -/
def Job.Suits (sites : Nat → Site) (m : Machine) (f : Frame) : Job → Block → Prop
  | reading args rest, .steps _ is =>
    Value.AllRelated (Link.same sites m) args args ∧ rest <:+ is
  | selecting v _ _, .steps _ _ => v.Fine sites m
  | working _, .steps _ _ => True
  | storing s, .steps _ _ => s.Fine sites m f.scope
  | storing s, .function id body => s = .declared body f.unit id
  | waiting, _ | finished, _ | failed _, _ => True
  | _, _ => False

/-- A graph under way: the blocks with a value are those that have finished, and the blocks that
have started have all that they wait for. -/
structure LevelFine (sites : Nat → Site) (m : Machine) (g : Graph) (f : Frame) (jobs : Nat → Job) :
    Prop where
  scope : f.scope < m.activations.size
  levels : ∃ outer, (sites f.scope).levels = g :: outer
  unit : (sites f.scope).unit = f.unit
  finished_iff : ∀ {i}, i < g.blocks.length →
    (jobs i = .finished ↔ (m.slot? f.scope (g.slot (g.params.toNat + i))).isSome = true)
  outside : ∀ {i}, g.blocks.length ≤ i → jobs i = .waiting
  free : ∀ {i}, (jobs i).isRunning = true → g.Free jobs i
  suits : ∀ {i : Nat} {b}, g.blocks[i]? = some b → (jobs i).Suits sites m f b

mutual

/-- The values in what is under way are fine, and its graphs are in order. -/
def Work.Fine (P : Graph → Prop) (sites : Nat → Site) (m : Machine) : Work → Prop
  | .script _ s => s.Fine sites m
  | .bind _ inner next => inner.Fine P sites m ∧ NextFine sites m next
  | .boot p => p.Fine P sites m
  | .call g unit _ parent args => Callable P sites m g unit parent args
  | .level g f jobs _ => LevelFine sites m g f jobs ∧ ∀ i, (jobs i).Fine P sites m
  | .load _ _ inner => inner.Fine P sites m

/-- The work of a block is fine. -/
def Job.Fine (P : Graph → Prop) (sites : Nat → Site) (m : Machine) : Job → Prop
  | .working w => w.Fine P sites m
  | .waiting | .reading .. | .selecting .. | .storing _ | .finished | .failed _ => True

end

mutual

/-- A graph under way has this activation. -/
def Work.Uses (scope : Nat) : Work → Prop
  | .script .. | .boot _ | .call .. => False
  | .bind _ inner _ | .load _ _ inner => inner.Uses scope
  | .level _ f jobs _ => f.scope = scope ∨ ∃ i, (jobs i).Uses scope

/-- A graph under way in the work of a block has this activation. -/
def Job.Uses (scope : Nat) : Job → Prop
  | .working w => w.Uses scope
  | .waiting | .reading .. | .selecting .. | .storing _ | .finished | .failed _ => False

end

mutual

/-- No two graphs under way share an activation. -/
def Work.Apart : Work → Prop
  | .script .. | .boot _ | .call .. => True
  | .bind _ inner _ | .load _ _ inner => inner.Apart
  | .level _ f jobs _ => (∀ i, (jobs i).Apart ∧ ¬ (jobs i).Uses f.scope) ∧
    ∀ i j, i ≠ j → ∀ scope, (jobs i).Uses scope → ¬ (jobs j).Uses scope

/-- No two graphs under way in the work of a block share an activation. -/
def Job.Apart : Job → Prop
  | .working w => w.Apart
  | .waiting | .reading .. | .selecting .. | .storing _ | .finished | .failed _ => True

end

section Frame

variable {P : Graph → Prop} {sites sites' : Nat → Site} {m m' : Machine}

theorem Job.Suits.grow {f : Frame} {j : Job} {b : Block} (hj : j.Suits sites m f b)
    (h : Grows sites m sites' m') : j.Suits sites' m' f b := by
  cases j with
  | reading args rest =>
    cases b with
    | steps id is => exact ⟨Value.allRelated_mono h.link hj.1, hj.2⟩
    | function id body => exact hj
  | selecting v name form =>
    cases b with
    | steps id is => exact h.value hj
    | function id body => exact hj
  | storing s =>
    cases b with
    | steps id is => exact h.slot hj
    | function id body => exact hj
  | working w => cases b <;> exact hj
  | _ => exact trivial

theorem LevelFine.grow {g : Graph} {f : Frame} {jobs : Nat → Job} (hl : LevelFine sites m g f jobs)
    (h : Grows sites m sites' m') (ha : m'.activations[f.scope]? = m.activations[f.scope]?) :
    LevelFine sites' m' g f jobs := by
  have hslot (id : ValueId) : m'.slot? f.scope id = m.slot? f.scope id := by
    unfold Machine.slot?
    rw [ha]
  refine ⟨Nat.lt_of_lt_of_le hl.scope h.size_le, ?_, ?_, fun hi => ?_, hl.outside, hl.free,
    fun hb => (hl.suits hb).grow h⟩
  · rw [h.sites hl.scope]
    exact hl.levels
  · rw [h.sites hl.scope]
    exact hl.unit
  · rw [hslot]
    exact hl.finished_iff hi

mutual

/-- What is under way stays fine when its activations are not touched. -/
theorem Work.Fine.grow {w : Work} (hw : w.Fine P sites m) (h : Grows sites m sites' m')
    (ha : ∀ scope, w.Uses scope → m'.activations[scope]? = m.activations[scope]?) :
    w.Fine P sites' m' := by
  cases w with
  | script depth s =>
    rw [Work.Fine] at hw ⊢
    exact Script.Fine.grow hw h
  | bind depth inner next =>
    rw [Work.Fine] at hw ⊢
    exact ⟨Work.Fine.grow hw.1 h fun scope hu => ha scope (by rwa [Work.Uses]), NextFine.grow hw.2 h⟩
  | boot p =>
    rw [Work.Fine] at hw ⊢
    exact hw.grow h
  | call g unit depth parent args =>
    rw [Work.Fine] at hw ⊢
    exact hw.grow h h.images_size
  | level g f jobs failure =>
    rw [Work.Fine] at hw ⊢
    refine ⟨hw.1.grow h (ha _ (by rw [Work.Uses]; exact .inl rfl)), fun i => ?_⟩
    exact Job.Fine.grow (hw.2 i) h fun scope hu => ha scope (by rw [Work.Uses]; exact .inr ⟨i, hu⟩)
  | load target quiet inner =>
    rw [Work.Fine] at hw ⊢
    exact Work.Fine.grow hw h fun scope hu => ha scope (by rwa [Work.Uses])

/-- The work of a block stays fine when its activations are not touched. -/
theorem Job.Fine.grow {j : Job} (hj : j.Fine P sites m) (h : Grows sites m sites' m')
    (ha : ∀ scope, j.Uses scope → m'.activations[scope]? = m.activations[scope]?) :
    j.Fine P sites' m' := by
  cases j with
  | working w =>
    rw [Job.Fine] at hj ⊢
    exact Work.Fine.grow hj h fun scope hu => ha scope (by rwa [Job.Uses])
  | _ =>
    rw [Job.Fine]
    trivial

end

mutual

/-- The activations of graphs under way exist. -/
theorem Work.Fine.uses_lt {w : Work} (hw : w.Fine P sites m) {scope : Nat} (hu : w.Uses scope) :
    scope < m.activations.size := by
  cases w with
  | script | boot | call =>
    rw [Work.Uses] at hu
    exact hu.elim
  | bind depth inner next =>
    rw [Work.Fine] at hw
    rw [Work.Uses] at hu
    exact Work.Fine.uses_lt hw.1 hu
  | level g f jobs failure =>
    rw [Work.Fine] at hw
    rw [Work.Uses] at hu
    rcases hu with rfl | ⟨i, hu⟩
    · exact hw.1.scope
    · exact Job.Fine.uses_lt (hw.2 i) hu
  | load target quiet inner =>
    rw [Work.Fine] at hw
    rw [Work.Uses] at hu
    exact Work.Fine.uses_lt hw hu

theorem Job.Fine.uses_lt {j : Job} (hj : j.Fine P sites m) {scope : Nat} (hu : j.Uses scope) :
    scope < m.activations.size := by
  cases j with
  | working w =>
    rw [Job.Fine] at hj
    rw [Job.Uses] at hu
    exact Work.Fine.uses_lt hj hu
  | _ =>
    rw [Job.Uses] at hu
    exact hu.elim

end

end Frame

/-! ## Operations -/

/-- The property of a level passes to the functions in it. -/
def Inherited (P : Graph → Prop) : Prop :=
  ∀ {g : Graph} {j : Nat} {id body}, P g → g.blocks[j]? = some (.function id body) → P body

/-- The levels of all activations have a property. -/
def Within (P : Graph → Prop) (sites : Nat → Site) (m : Machine) : Prop :=
  ∀ scope < m.activations.size, ∀ g ∈ (sites scope).levels, P g

/-- A frame of an activation that is there. -/
def Frame.Known (sites : Nat → Site) (m : Machine) (f : Frame) : Prop :=
  f.scope < m.activations.size ∧ (sites f.scope).unit = f.unit

/-- An operation that may be done: what it reads has been written, what it writes has not. -/
def Op.Safe (P : Graph → Prop) (sites : Nat → Site) (m : Machine) {α : Type} : Op α → Prop
  | find f id => f.Known sites m ∧ (0 ≤ id → Found sites m id f.scope)
  | constant f _ | fieldName f _ => f.Known sites m
  | addImage image => ∀ id v, image.environment.get? id = some v → v.Fine sites m
  | enter g unit _ parent args => Callable P sites m g unit parent args ∧ g.blocks ≠ []
  | put scope id s => ∃ (a : Activation) (g : Graph) (outer : List Graph) (i : Nat) (b : Block),
    m.activations[scope]? = some a ∧ a.Fine sites m scope g outer ∧ g.blocks[i]? = some b ∧ b.id = id ∧
    m.slot? scope id = none ∧ b.MayWrite sites m scope g i s
  | result scope id => ∃ s, m.slot? scope id = some s ∧ s.Fine sites m scope
  | idle | mint | print _ | note _ => True

/-- The numbers of a graph that is entered do not wrap around. -/
def Op.Fits {α : Type} : Op α → Prop
  | enter g _ _ _ _ => g.Fits
  | _ => True

/-- The activation that an operation writes in. -/
def Op.Writes (scope : Nat) {α : Type} : Op α → Prop
  | put scope' _ _ => scope' = scope
  | _ => False

/-- An operation makes an activation that lies there. -/
def Op.Enters (sites : Nat → Site) (site : Site) {α : Type} : Op α → Prop
  | enter g unit _ parent _ => site = ⟨levelsOf sites g parent, unit⟩
  | _ => False

/-- What an operation leaves behind. -/
structure Op.Kept (P : Graph → Prop) (sites : Nat → Site) (m : Machine) (sites' : Nat → Site)
    (m' : Machine) {α : Type} (op : Op α) : Prop where
  grows : Grows sites m sites' m'
  fine : m'.Fine sites'
  within : Within P sites m → Within P sites' m'
  others : ∀ scope < m.activations.size, ¬ op.Writes scope →
    m'.activations[scope]? = m.activations[scope]?
  entered : ∀ scope < m'.activations.size, m.activations.size ≤ scope →
    op.Enters sites (sites' scope)

/-- What is known of the answer of an operation. -/
def Op.Replies (m : Machine) (sites' : Nat → Site) (m' : Machine) {α : Type} : Op α → α → Prop
  | find _ _, v | constant _ _, v | result _ _, v => v.Fine sites' m'
  | mint, n => n < m'.identities
  | addImage _, unit => unit < m'.images.size
  | enter g unit depth _ _, f => f = ⟨unit, m.activations.size, depth⟩ ∧
    f.scope < m'.activations.size ∧ (∃ outer, sites' f.scope = ⟨g :: outer, unit⟩) ∧
    ∀ i < g.blocks.length, m'.slot? f.scope (g.slot (g.params.toNat + i)) = none
  | put scope id s, _ => ∀ id', m'.slot? scope id' = if id' = id then some s else m.slot? scope id'
  | idle, _ | fieldName _ _, _ | print _, _ | note _, _ => True

/-- Why an operation that may be done can fail all the same. -/
def Op.Declines (m : Machine) {α : Type} : Op α → RunError → Prop
  | find f id, e => id < 0 ∧ (m.environment f).get? id = none ∧ e = .unavailable id
  | constant _ id, e => e = .malformed (.missingConstant id) ∨ e = .malformed (.undecodable id)
  | fieldName _ id, e => e = .malformed (.missingConstant id) ∨ e = .malformed (.undecodable id) ∨
    e = .fieldNotText id
  | _, _ => False

namespace Op

variable {P : Graph → Prop} {sites : Nat → Site} {m : Machine}

/-- Operations that leave activations and images alone. -/
theorem Kept.of_same {α : Type} (op : Op α) {m' : Machine} (hm : m.Fine sites)
    (ha : m'.activations = m.activations) (hi : m'.images = m.images)
    (hn : m.identities ≤ m'.identities) : op.Kept P sites m sites m' :=
  ⟨.of_same ha hi hn, hm.of_same ha hi hn, fun h scope hs => h scope (ha ▸ hs),
    fun _ _ _ => by rw [ha], fun _ hs hge => absurd (ha ▸ hs) (Nat.not_lt.mpr hge)⟩

theorem Kept.refl {α : Type} (op : Op α) (hm : m.Fine sites) : op.Kept P sites m sites m :=
  .of_same op hm rfl rfl (Nat.le_refl _)

theorem Kept.enter (hP : Inherited P) (hm : m.Fine sites)
    {g : Graph} {unit : Nat} (depth : Nat) {parent : Option Nat} {args : List Value}
    (hc : Callable P sites m g unit parent args) (hg : g.Fits) (hne : g.blocks ≠ []) :
    (Op.enter g unit depth parent args).Kept P sites m
      (Site.grow sites m (levelsOf sites g parent) unit)
      (m.grow (bound g parent m.activations.size args)) := by
  refine ⟨.grow _ _ _, hm.grow hc hg hne, fun h scope hs g' hg' => ?_, fun scope hs _ => ?_,
    fun scope hs hge => ?_⟩
  · by_cases he : scope = m.activations.size
    · rw [he, Site.grow, Function.update_self] at hg'
      cases parent with
      | none =>
        obtain rfl : g' = g := by simpa [levelsOf] using hg'
        exact (hc.of_none rfl).2
      | some p =>
        obtain ⟨hp, -, g₁, outer, j, id, hl, hb, -⟩ := hc.of_some rfl
        rcases List.mem_cons.mp hg' with rfl | hg'
        · exact hP (h p hp g₁ (by simp [hl])) hb
        · exact h p hp g' hg'
    · rw [Site.grow, Function.update_of_ne he] at hg'
      have hs' : scope < (m.activations.push _).size := hs
      rw [Array.size_push] at hs'
      exact h scope (by omega) g' hg'
  · rw [Machine.activations_grow, if_neg (by omega)]
  · have hs' : scope < (m.activations.push _).size := hs
    rw [Array.size_push] at hs'
    obtain rfl : scope = m.activations.size := by omega
    exact Function.update_self ..

theorem Kept.put {scope i : Nat} {a : Activation} {g : Graph} {outer : List Graph} {b : Block}
    {s : Slot} (hm : m.Fine sites) (ha : m.activations[scope]? = some a)
    (haf : a.Fine sites m scope g outer) (hb : g.blocks[i]? = some b)
    (hn : a.slot? (g.slot (g.params.toNat + i)) = none) (hw : b.MayWrite sites m scope g i s) :
    (Op.put scope b.id s).Kept P sites m sites (m.store scope (g.params.toNat + i) s) := by
  refine ⟨.store ha (haf.offset?_block hb) hn s, hm.store ha haf hb hn hw, fun h scope' hs => ?_,
    fun scope' _ hne => ?_, fun scope' hs hge => ?_⟩
  · have hs' : scope' < (m.activations.modify scope _).size := hs
    rw [Array.size_modify] at hs'
    exact h scope' hs'
  · have hne' : ¬ scope = scope' := hne
    rw [Machine.activations_store, if_neg hne']
  · have hs' : scope' < (m.activations.modify scope _).size := hs
    rw [Array.size_modify] at hs'
    exact absurd hs' (Nat.not_lt.mpr hge)

theorem fieldName_cases (f : Frame) (id : ConstantId) (m : Machine) :
    (∃ text, f.fieldName id m = .ok text m) ∨
    ∃ e, f.fieldName id m = .error (.error e) m ∧ (Op.fieldName f id).Declines m e := by
  unfold Frame.fieldName
  rcases frame_constant f id m (L := Link.same (fun _ => default) m) with ⟨v, hv, -⟩ | hv | hv
  · rw [bind_ok hv]
    cases v with
    | str text => exact .inl ⟨text, rfl⟩
    | _ => exact .inr ⟨_, rfl, .inr (.inr rfl)⟩
  · exact .inr ⟨_, bind_error hv, .inl rfl⟩
  · exact .inr ⟨_, bind_error hv, .inr (.inl rfl)⟩

/-- An operation that may be done succeeds and keeps all that holds of the machine, or it fails for
one of the reasons it may have and changes nothing. -/
theorem run_cases (hP : Inherited P) (hm : m.Fine sites)
    {α : Type} {op : Op α} (hs : op.Safe P sites m) (hf : op.Fits) :
    (∃ a m' sites', op.run m = .ok a m' ∧ op.Kept P sites m sites' m' ∧
      op.Replies m sites' m' a) ∨
    ∃ e, op.run m = .error (.error e) m ∧ op.Declines m e := by
  cases op with
  | idle => exact .inl ⟨(), m, sites, rfl, .refl _ hm, trivial⟩
  | find f id =>
    obtain ⟨⟨hs, hu⟩, hfound⟩ := hs
    rcases frame_find hm hs hu hfound with ⟨v, n, hr, hv⟩ | ⟨hneg, hnone, hr⟩
    · exact .inl ⟨v, _, sites, hr, .of_same _ hm rfl rfl (Nat.le_add_right _ _), hv⟩
    · exact .inr ⟨_, hr, hneg, hnone, rfl⟩
  | constant f id =>
    rcases frame_constant f id m (L := Link.same sites m) with ⟨v, hr, hv⟩ | hr | hr
    · exact .inl ⟨v, m, sites, hr, .refl _ hm, hv⟩
    · exact .inr ⟨_, hr, .inl rfl⟩
    · exact .inr ⟨_, hr, .inr rfl⟩
  | fieldName f id =>
    rcases fieldName_cases f id m with ⟨text, hr⟩ | ⟨e, hr, he⟩
    · exact .inl ⟨text, m, sites, hr, .refl _ hm, trivial⟩
    · exact .inr ⟨e, hr, he⟩
  | mint =>
    refine .inl ⟨_, m.minted 1, sites, rfl, .of_same _ hm rfl rfl (Nat.le_add_right _ _), ?_⟩
    exact Nat.lt_succ_self _
  | print text => exact .inl ⟨(), _, sites, rfl, .of_same _ hm rfl rfl (Nat.le_refl _), trivial⟩
  | note target => exact .inl ⟨(), _, sites, rfl, .of_same _ hm rfl rfl (Nat.le_refl _), trivial⟩
  | addImage image =>
    refine .inl ⟨_, _, sites, rfl,
      ⟨.addImage image, hm.addImage fun {id v} => hs id v, fun h => h, fun _ _ _ => rfl,
        fun _ hs hge => absurd hs (Nat.not_lt.mpr hge)⟩, ?_⟩
    show m.images.size < (m.images.push image).size
    rw [Array.size_push]
    exact Nat.lt_succ_self _
  | enter g unit depth parent args =>
    obtain ⟨hc, hne⟩ := hs
    refine .inl ⟨_, _, _, enter_bound hf unit depth parent hc.length m, .enter hP hm depth hc hf hne,
      rfl, ?_, ⟨_, Function.update_self ..⟩, fun i hi => ?_⟩
    · show m.activations.size < (m.activations.push _).size
      rw [Array.size_push]
      exact Nat.lt_succ_self _
    · rw [Machine.slot?_grow, if_pos rfl]
      have hfree := Activation.slot?_putAll hf (a := .blank parent g.first g.slotCount) rfl
        (by simp [Activation.blank]) m.activations.size 0 args
        (by rw [hc.length]; unfold Level.slotCount; omega) (k := g.params.toNat + i)
        (by unfold Level.slotCount; omega)
      rw [bound, hfree, dif_neg (by rw [hc.length]; omega), Activation.slot?_blank]
  | put scope id s =>
    obtain ⟨a, g, outer, i, b, ha, haf, hb, rfl, hn, hw⟩ := hs
    have hn' := hn
    rw [Machine.slot?_eq_of_activation ha, haf.id_eq hb] at hn'
    refine .inl ⟨(), _, sites, put_block ha haf hb hn' s, .put hm ha haf hb hn' hw, fun id' => ?_⟩
    rw [Machine.slot?_store ha (haf.offset?_block hb), haf.id_eq hb]
    simp only [true_and]
  | result scope id =>
    obtain ⟨s, hx, hsf⟩ := hs
    obtain ⟨v, n, hr, hv⟩ := read_fine hx hsf
    exact .inl ⟨v, _, sites, (bind_ok hr).trans rfl,
      .of_same _ hm rfl rfl (Nat.le_add_right _ _), hv⟩

end Op

end Dataflow
