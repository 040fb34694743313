import Dataflow.Proofs.Run.Effect

/-!
# Operations later on

An operation that may be done now and later adds the same later, and fails for the same reason if it
fails at all. So it does not matter to it what has been done before.

* `Frame.Peeks`: computations that look only at the image of a frame;
* **`Op.adds`**: what an operation adds and answers, now and later;
* `Op.fails_later`: an operation that fails now fails later;
* `Op.total`: operations always come to something.
-/

namespace Dataflow

open Run

variable {P : Graph → Prop} {sites sites' : Nat → Site} {m m' : Machine}

/-! ## Images -/

/-- A computation that looks at the image of a frame and at nothing else. -/
def Frame.Peeks (f : Frame) {α : Type} (x : Run α) (φ : Image → Except RunError α) : Prop :=
  ∀ m, x m = ofExcept (φ (m.images.getD f.unit default)) m

namespace Frame

theorem peeks_constant (f : Frame) (id : ConstantId) : f.Peeks (f.constant id) fun i =>
    match i.constants[id.toNat]? with
    | none => .error (.malformed (.missingConstant id))
    | some c => match c.value? with
      | some v => .ok v
      | none => .error (.malformed (.undecodable id)) := by
  intro m
  rw [f.constant_apply id m]
  dsimp only
  cases (m.images.getD f.unit default).constants[id.toNat]? with
  | none => rfl
  | some c =>
    dsimp only
    cases c.value? <;> rfl

theorem Peeks.bind {f : Frame} {α β : Type} {x : Run α} {φ : Image → Except RunError α}
    (hx : f.Peeks x φ) {y : α → Run β} {ψ : α → Except RunError β}
    (hy : ∀ a, y a = ofExcept (ψ a)) : f.Peeks (x >>= y) fun i => (φ i).bind ψ := by
  intro m
  rw [bind_apply, hx m]
  dsimp only
  cases φ (m.images.getD f.unit default) with
  | ok a => exact congrFun (hy a) m
  | error e => rfl

/-- The text that names a field, if the value of a constant is one. -/
def nameOf (id : ConstantId) : Value → Except RunError String
  | .str text => .ok text
  | _ => .error (.fieldNotText id)

theorem peeks_fieldName (f : Frame) (id : ConstantId) : ∃ φ, f.Peeks (f.fieldName id) φ := by
  refine ⟨_, (f.peeks_constant id).bind (ψ := nameOf id) fun v => ?_⟩
  cases v <;> rfl

theorem peeks_find (f : Frame) {id : ValueId} (h : id < 0) : f.Peeks (f.find id) fun i =>
    match i.environment.get? id with
    | some v => .ok v
    | none => .error (.unavailable id) := by
  intro m
  have hb : id.isBuiltin = true := by simpa [ValueId.isBuiltin] using h
  rw [f.find_of_isBuiltin hb m]
  dsimp only
  cases (m.images.getD f.unit default).environment.get? id <;> rfl

theorem find_eq (f : Frame) {id : ValueId} (h : ¬ id < 0) : f.find id = Run.find f.scope id := by
  have hb : id.isBuiltin = false := by simpa [ValueId.isBuiltin] using h
  unfold Frame.find
  rw [hb]
  rfl

/-- The image of a frame stays the same. -/
theorem Known.image_eq {f : Frame} (hf : f.Known sites m) (hm : m.Fine sites)
    (hg : Grows sites m sites' m') :
    m'.images.getD f.unit default = m.images.getD f.unit default := by
  have hu := hm.unit hf.1
  rw [hf.2] at hu
  rw [Array.getD_eq_getD_getElem?, Array.getD_eq_getD_getElem?,
    hg.images (Array.getElem?_eq_getElem hu), Array.getElem?_eq_getElem hu]

theorem Peeks.later {f : Frame} {α : Type} {x : Run α} {φ : Image → Except RunError α}
    (hx : f.Peeks x φ) (hf : f.Known sites m) (hm : m.Fine sites) (hg : Grows sites m sites' m') :
    x m' = ofExcept (φ (m.images.getD f.unit default)) m' := by
  rw [hx m', hf.image_eq hm hg]

end Frame

/-! ## What is added -/

namespace Effect

@[simp]
theorem apply_none (m : Machine) : none.apply m = m := by
  simp [apply, none, stored]

theorem fine_none (m : Machine) : none.Fine m := fine_minted m 0

end Effect

/-- A computation that only looks at an image and comes to a value adds nothing. -/
theorem Op.adds_of_peeks {α : Type} (op : Op α) {f : Frame} {φ : Image → Except RunError α}
    (hm : m.Fine sites) (hf : f.Known sites m) (hx : f.Peeks op.run φ) {a : α} {m₁ : Machine}
    (hr : op.run m = .ok a m₁) (halike : ∀ {ρ : Renaming}, ρ.Fixes m → op.Alike ρ a a) :
    op.Adds P sites m .none fun _ => a := by
  refine ⟨Effect.fine_none m, fun {sites' m'} hg _ => ?_, fun hρ _ _ _ => halike hρ, nofun⟩
  rw [hx.later hf hm (.refl sites m)] at hr
  rw [hx.later hf hm hg, Effect.apply_none]
  cases hi : φ (m.images.getD f.unit default) with
  | ok a' =>
    rw [hi] at hr
    cases hr
    rfl
  | error e =>
    rw [hi] at hr
    cases hr

/-- Reading something that is there and stays there gives out identities at most. -/
theorem Op.adds_of_slot {op : Op Value} {holder : Nat} {s : Slot} (hm : m.Fine sites)
    (hs : s.Fine sites m holder)
    (halike : ∀ {ρ : Renaming} {v v' : Value}, op.Alike ρ v v' ↔ Value.Related ρ.link v v')
    (hlater : ∀ {sites' m'}, Grows sites m sites' m' →
      op.run m' = .ok (s.reply holder m') (m'.minted s.mints)) :
    op.Adds P sites m (.minted s.mints) (s.reply holder) := by
  refine ⟨Effect.fine_minted m _, fun {sites' m'} hg _ => ?_, fun hρ hi _ _ => ?_, nofun⟩
  · rw [hlater hg, Effect.apply_minted]
  · exact halike.mpr (Slot.reply_alike hm hs hρ hi)

theorem Slot.keep_of_fine {v : Value} (hv : v.Fine sites m) {scope : Nat}
    (hs : m.activations.size ≤ scope) : Slot.keep scope v = .value v := by
  cases hv with
  | function hf =>
    cases hf with
    | @closure i _ c _ _ hc =>
      have hlt := hc.2.scope
      exact if_neg (by omega)
    | native | method => rfl
  | _ => rfl

theorem Activation.putAll_congr {vs : List Value}
    (hs : Value.AllRelated (Link.same sites m) vs vs) {scope scope' : Nat}
    (h : m.activations.size ≤ scope) (h' : m.activations.size ≤ scope') (a : Activation) (n : Nat) :
    a.putAll scope n vs = a.putAll scope' n vs := by
  induction vs generalizing a n with
  | nil => rfl
  | cons v vs ih =>
    cases hs with
    | cons hv hs =>
      rw [Activation.putAll, Activation.putAll, Slot.keep_of_fine hv h, Slot.keep_of_fine hv h',
        ih hs]

/-- The activation of a graph that is entered is the same whenever it is entered. -/
theorem Callable.bound_eq {g : Graph} {unit : Nat} {parent : Option Nat} {args : List Value}
    (hc : Callable P sites m g unit parent args) {scope : Nat} (hs : m.activations.size ≤ scope) :
    bound g parent scope args = bound g parent m.activations.size args :=
  Activation.putAll_congr hc.args_fine hs (Nat.le_refl _) _ _

theorem Callable.bound_renamed {g : Graph} {unit : Nat} {parent : Option Nat} {args : List Value}
    (hc : Callable P sites m g unit parent args) (hg : g.Fits) (hm : m.Fine sites) {ρ : Renaming}
    (hρ : ρ.Fixes m) :
    (bound g parent m.activations.size args).Renamed ρ (bound g parent m.activations.size args) := by
  have hshape := Activation.shape_putAll (.blank parent g.first g.slotCount) m.activations.size 0 args
  have hparent : parent.map ρ.scope = parent := by
    cases parent with
    | none => rfl
    | some p => rw [Option.map_some, hρ.scope p (hc.of_some rfl).1]
  refine ⟨?_, fun id => Option.rel_self fun s hs => ?_⟩
  · have he := Activation.shape_eq hshape
    rw [bound, he.1, he.2.1, he.2.2, hshape]
    show (parent, _, _) = (parent.map ρ.scope, _, _)
    rw [hparent]
  · obtain ⟨o, ho, -⟩ := Activation.slot?_eq_some_iff.mp hs
    have hlt := Activation.offset?_lt ho
    rw [bound, (Activation.shape_eq hshape).2.2] at hlt
    have hlt' : o < g.slotCount := by simpa [Activation.blank] using hlt
    have hid : id = g.slot o := by
      refine Activation.offset?_inj ho (hg.offset?_slot ?_ ?_ hlt')
      · exact (Activation.shape_eq hshape).2.1
      · rw [bound, (Activation.shape_eq hshape).2.2]
        simp [Activation.blank]
    subst hid
    rw [bound, Activation.slot?_putAll hg rfl (by simp [Activation.blank]) _ 0 args
      (by rw [hc.length]; unfold Level.slotCount; omega) hlt', Activation.slot?_blank] at hs
    split at hs
    case isTrue h =>
      cases hs
      have hv := AllFine.get hc.args_fine ⟨o - 0, by omega⟩
      rw [Slot.keep_of_fine hv (Nat.le_refl _)]
      exact .value (hv.mono (hρ.link hm))
    case isFalse => cases hs

namespace Op

theorem adds_find (hm : m.Fine sites) {f : Frame} {id : ValueId}
    (hs : (Op.find f id).Safe P sites m) {v : Value} {m₁ : Machine}
    (hr : (Op.find f id).run m = .ok v m₁) : ∃ e reply, (Op.find f id).Adds P sites m e reply := by
  obtain ⟨hf, hfound⟩ := hs
  by_cases h0 : id < 0
  · refine ⟨_, _, adds_of_peeks (.find f id) hm hf (f.peeks_find h0) hr fun hρ => ?_⟩
    have hu : f.unit < m.images.size := hf.2 ▸ hm.unit hf.1
    have hr' := hr
    rw [show (Op.find f id).run = f.find id from rfl, f.peeks_find h0 m,
      Array.getD_eq_getD_getElem?, Array.getElem?_eq_getElem hu, Option.getD_some] at hr'
    dsimp only at hr'
    cases hv : m.images[f.unit].environment.get? id with
    | none =>
      rw [hv] at hr'
      cases hr'
    | some v' =>
      rw [hv] at hr'
      cases hr'
      exact (hm.image (Array.getElem?_eq_getElem hu) hv).mono (hρ.link hm)
  · obtain ⟨holder, s, hh, -, hx, hsf⟩ := hfound (Int32.not_lt.mp h0)
    refine ⟨_, _, adds_of_slot hm hsf .rfl fun {sites' m'} hg => ?_⟩
    show f.find id m' = _
    rw [f.find_eq h0]
    unfold Run.find
    rw [bind_ok (show (get : Run Machine) m' = .ok m' m' from rfl)]
    rw [hg.holder? hm.nested id hf.1, hh]
    exact (bind_ok (Slot.read_eq (hg.slot? hx))).trans rfl

theorem adds_enter (hm : m.Fine sites) {g : Graph} {unit depth : Nat} {parent : Option Nat}
    {args : List Value} (hc : Callable P sites m g unit parent args) (hg : g.Fits) :
    (Op.enter g unit depth parent args).Adds P sites m
      { Effect.none with activations := #[bound g parent m.activations.size args] }
      fun m' => ⟨unit, m'.activations.size, depth⟩ := by
  refine ⟨Effect.fine_of_store?_eq_none (fun _ i hi => ?_) (fun hρ a ha => ?_) rfl,
    fun {sites' m'} hgr _ => ?_, fun {ρ m₁ m₂} hρ _ _ hs => ?_, nofun⟩
  · simp [Effect.none] at hi
  · obtain rfl : a = _ := Array.mem_singleton.mp ha
    exact hc.bound_renamed hg hm hρ
  · rw [enter_bound hg unit depth parent hc.length m', hc.bound_eq hgr.size_le]
    simp [Effect.apply, Effect.none, Effect.stored, Machine.grow]
  · show (⟨unit, m₂.activations.size, depth⟩ : Frame) = ⟨ρ.unit unit, ρ.scope _, depth⟩
    rw [hs Nat.one_pos, hρ.unit unit hc.unit_lt]

theorem adds_put (hm : m.Fine sites) {scope : Nat} {id : ValueId} {s : Slot}
    (hs : (Op.put scope id s).Safe P sites m) :
    ∃ e reply, (Op.put scope id s).Adds P sites m e reply := by
  obtain ⟨a, g, outer, i, b, ha, haf, hb, rfl, hn, hw⟩ := hs
  have ho : a.offset? b.id = some (g.params.toNat + i) := by
    rw [haf.id_eq hb]
    exact haf.offset?_block hb
  have hsf {ρ : Renaming} (hρ : ρ.Fixes m) : s.Renamed ρ s := by
    cases b with
    | steps => exact Slot.Fine.renamed hm hρ hw
    | function id body =>
      obtain rfl := hw.1
      have h := Slot.Renamed.declared (ρ := ρ) body (sites scope).unit id
      rwa [hρ.unit _ (hm.unit (Array.getElem?_eq_some_iff.mp ha).1)] at h
  refine ⟨{ Effect.none with store? := some (scope, g.params.toNat + i, s) }, fun _ => (),
    ⟨fun _ i hi => ?_, fun _ a ha => ?_, fun h => ?_, fun h _ hρ => ?_⟩,
    fun {sites' m'} hg hsafe => ?_, fun _ _ _ _ => trivial,
    fun {sites' m' _ _ _ a' id'} h hg hsafe ha' ho' => ?_⟩
  · simp [Effect.none] at hi
  · simp [Effect.none] at ha
  · cases h
    exact ⟨a, b.id, ha, ho⟩
  · cases h
    exact hsf hρ
  · obtain ⟨a', g', outer', i', b', ha', -, -, -, hn', -⟩ := hsafe
    obtain ⟨a'', ha'', hshape, -⟩ := hg.activations ha
    obtain rfl : a' = a'' := Option.some.inj (ha'.symm.trans ha'')
    rw [Machine.slot?_eq_of_activation ha'] at hn'
    have ho' : a'.offset? b.id = some (g.params.toNat + i) := by
      rw [Activation.offset?_congr hshape, ho]
    refine (put_of_slot?_eq_none ha' ho' hn' s).trans ?_
    simp [Effect.apply, Effect.none, Effect.stored, Machine.store]
  · cases h
    obtain ⟨a'', g', outer', i', b', ha'', -, -, -, hn', -⟩ := hsafe
    obtain rfl : a' = a'' := Option.some.inj (ha'.symm.trans ha'')
    obtain ⟨a'', ha'', hshape, -⟩ := hg.activations ha
    obtain rfl : a' = a'' := Option.some.inj (ha'.symm.trans ha'')
    rw [Machine.slot?_eq_of_activation ha'] at hn'
    rw [← Activation.offset?_congr hshape] at ho
    rwa [Activation.offset?_inj ho' ho]

/-- What an operation adds and answers, now and later. -/
theorem adds (hm : m.Fine sites) {α : Type} {op : Op α} (hs : op.Safe P sites m) (hf : op.Fits)
    {a : α} {m₁ : Machine} (hr : op.run m = .ok a m₁) : ∃ e reply, op.Adds P sites m e reply := by
  cases op with
  | idle =>
    exact ⟨.none, fun _ => (), Effect.fine_none m, fun _ _ => by rw [Effect.apply_none]; rfl,
      fun _ _ _ _ => trivial, fun h => by cases h⟩
  | find f id => exact adds_find hm hs hr
  | constant f id =>
    refine ⟨_, _, adds_of_peeks (.constant f id) hm hs (f.peeks_constant id) hr fun {ρ} _ => ?_⟩
    rcases frame_constant f id m (L := ρ.link) with ⟨v, hv, hrel⟩ | he | he
    · obtain rfl : v = a := by
        have := hv.symm.trans hr
        cases this
        rfl
      exact hrel
    · cases he.symm.trans hr
    · cases he.symm.trans hr
  | fieldName f id =>
    obtain ⟨φ, hφ⟩ := f.peeks_fieldName id
    exact ⟨_, _, adds_of_peeks (.fieldName f id) hm hs hφ hr fun _ => rfl⟩
  | mint =>
    refine ⟨.minted 1, Machine.identities, Effect.fine_minted m 1, fun _ _ => ?_,
      fun _ hi _ _ => (hi Nat.one_pos).symm, fun h => by cases h⟩
    rw [Effect.apply_minted]
    rfl
  | print text =>
    refine ⟨{ Effect.none with printed := #[text] }, fun _ => (), Effect.fine_of_store?_eq_none
      (fun _ i hi => by simp [Effect.none] at hi) (fun _ a ha => by simp [Effect.none] at ha) rfl,
      fun {_ m'} _ _ => ?_, fun _ _ _ _ => trivial, fun h => by cases h⟩
    refine (print_apply text m').trans ?_
    simp [Effect.apply, Effect.none, Effect.stored]
  | note target =>
    refine ⟨{ Effect.none with loads := #[target] }, fun _ => (), Effect.fine_of_store?_eq_none
      (fun _ i hi => by simp [Effect.none] at hi) (fun _ a ha => by simp [Effect.none] at ha) rfl,
      fun {_ m'} _ _ => ?_, fun _ _ _ _ => trivial, fun h => by cases h⟩
    show EStateM.Result.ok () { m' with loads := m'.loads.push target } = _
    simp [Effect.apply, Effect.none, Effect.stored]
  | addImage image =>
    refine ⟨{ Effect.none with images := #[image] }, fun m' => m'.images.size,
      Effect.fine_of_store?_eq_none (fun hρ i hi => ?_) (fun _ a ha => by simp [Effect.none] at ha) rfl,
      fun {_ m'} _ _ => ?_, fun _ _ hu _ => (hu Nat.one_pos).symm, fun h => by cases h⟩
    · obtain rfl := Array.mem_singleton.mp hi
      exact Image.renamed_of_fine hm hρ hs
    · show EStateM.Result.ok m'.images.size { m' with images := m'.images.push image } = _
      simp [Effect.apply, Effect.none, Effect.stored]
  | enter g unit depth parent args => exact ⟨_, _, adds_enter hm hs.1 hf⟩
  | put scope id s => exact adds_put hm hs
  | result scope id =>
    obtain ⟨s, hx, hsf⟩ := hs
    refine ⟨_, _, adds_of_slot hm hsf .rfl fun hg => ?_⟩
    exact (bind_ok (Slot.read_eq (hg.slot? hx))).trans rfl

theorem fails_of_peeks {α : Type} {x : Run α} {f : Frame} {φ : Image → Except RunError α}
    (hm : m.Fine sites) (hf : f.Known sites m) (hx : f.Peeks x φ) (hg : Grows sites m sites' m')
    {e : RunError} {m₁ : Machine} (hr : x m = .error (.error e) m₁) :
    x m' = .error (.error e) m' := by
  rw [hx.later hf hm (.refl sites m)] at hr
  rw [hx.later hf hm hg]
  cases hi : φ (m.images.getD f.unit default) with
  | ok a =>
    rw [hi] at hr
    cases hr
  | error e' =>
    rw [hi] at hr
    cases hr
    rfl

/-- An operation that fails now fails later for the same reason. -/
theorem fails_later (hP : Inherited P) (hm : m.Fine sites) {α : Type} {op : Op α}
    (hs : op.Safe P sites m) (hf : op.Fits) (hg : Grows sites m sites' m') {e : RunError}
    {m₁ : Machine} (hr : op.run m = .error (.error e) m₁) : op.run m' = .error (.error e) m' := by
  rcases run_cases hP hm hs hf with ⟨a, m₂, sites₂, hr', -⟩ | ⟨e', hr', hd⟩
  · cases hr.symm.trans hr'
  · cases op with
    | find f id => exact fails_of_peeks hm hs.1 (f.peeks_find hd.1) hg hr
    | constant f id => exact fails_of_peeks hm hs (f.peeks_constant id) hg hr
    | fieldName f id =>
      obtain ⟨φ, hφ⟩ := f.peeks_fieldName id
      exact fails_of_peeks hm hs hφ hg hr
    | _ => exact hd.elim

end Op

/-! ## Operations come to something -/

/-- A computation that comes to an answer or an error on every machine. -/
def Run.Total {α : Type} (x : Run α) : Prop := ∀ m, ∃ r m', Yields (x m) r m'

namespace Run.Total

variable {α β : Type}

theorem pure (a : α) : Total (pure a : Run α) := fun m => ⟨_, m, .ok a m⟩

theorem fail (e : RunError) : Total (fail e : Run α) := fun m => ⟨_, m, .error e m⟩

theorem bind {x : Run α} {y : α → Run β} (hx : Total x) (hy : ∀ a, Total (y a)) :
    Total (x >>= y) := by
  intro m
  obtain ⟨r, m₁, hr⟩ := hx m
  cases r with
  | ok a =>
    obtain ⟨r, m₂, hr'⟩ := hy a m₁
    exact ⟨r, m₂, hr.bind_ok hr'⟩
  | error e => exact ⟨_, m₁, hr.bind_error⟩

theorem put (scope : Nat) (id : ValueId) (s : Slot) : Total (put scope id s) := by
  intro m
  unfold Run.put
  split
  · exact fail _ m
  · split
    · exact fail _ m
    · exact ⟨_, _, .ok _ _⟩

theorem bindArguments (scope : Nat) (id : ValueId) (vs : List Value) :
    Total (bindArguments scope id vs) := by
  induction vs generalizing id with
  | nil => exact pure ()
  | cons v vs ih => exact bind (put scope id _) fun _ => ih (id + 1)

theorem read (scope : Nat) (id : ValueId) : Total (read scope id) := by
  intro m
  rw [read_apply]
  split <;> exact ⟨_, _, .ok _ _⟩

theorem find (scope : Nat) (id : ValueId) : Total (Run.find scope id) := by
  intro m
  rw [find_apply]
  split
  · exact fail _ m
  · split
    · exact fail _ m
    · exact ⟨_, _, .ok _ _⟩
    · exact ⟨_, _, .ok _ _⟩

theorem of_peeks {x : Run α} {f : Frame} {φ : Image → Except RunError α} (hx : f.Peeks x φ) :
    Total x := by
  intro m
  rw [hx m]
  cases φ (m.images.getD f.unit default) with
  | ok a => exact pure a m
  | error e => exact fail e m

end Run.Total

/-- Operations always come to something. -/
theorem Op.total {α : Type} (op : Op α) : Total op.run := by
  cases op with
  | idle => exact .pure ()
  | find f id =>
    by_cases h0 : id < 0
    · exact .of_peeks (f.peeks_find h0)
    · show Total (f.find id)
      rw [f.find_eq h0]
      exact .find f.scope id
  | constant f id => exact .of_peeks (f.peeks_constant id)
  | fieldName f id =>
    obtain ⟨φ, hφ⟩ := f.peeks_fieldName id
    exact .of_peeks hφ
  | mint | print | note | addImage => exact fun m => ⟨_, _, .ok _ _⟩
  | enter g unit depth parent args =>
    exact .bind (fun m => ⟨_, _, .ok _ _⟩) fun scope =>
      .bind (.bindArguments scope g.first args) fun _ => .pure _
  | put scope id s => exact .put scope id s
  | result scope id =>
    refine .bind (.read scope id) fun v => ?_
    cases v with
    | none => exact .fail _
    | some v => exact .pure v

end Dataflow
