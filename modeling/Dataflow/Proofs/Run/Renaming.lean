import Dataflow.Proofs.Run.Keeping

/-!
# Other numbers for the same things

Identities, activations and units get their numbers in the order in which they come up. Where two
runs differ only in this order, their machines are the same up to a renaming, and they go on to do
the same.

* `Renaming`: other numbers for identities, activations and units;
* `Machine.Renamed`: a machine under other numbers;
* `Op.Renamed`, `Op.Alike`: operations and their answers under other numbers;
* **`Op.run_renamed`**: operations do the same under other numbers.
-/

namespace Dataflow

open Run

/-- Other numbers for identities, activations and units. -/
structure Renaming where
  identity : Equiv.Perm Nat
  scope : Equiv.Perm Nat
  unit : Equiv.Perm Nat

namespace Renaming

variable (ρ : Renaming)

/-- A closure under other numbers. -/
def closure (c : Closure) : Closure := ⟨c.graph, ρ.unit c.unit, ρ.scope c.scope, c.id⟩

/-- A frame under other numbers. -/
def frame (f : Frame) : Frame := ⟨ρ.unit f.unit, ρ.scope f.scope, f.depth⟩

/-- Everything stands for itself under its other number. -/
def link : Link where
  identity i i' := i' = ρ.identity i
  function i i' := i' = ρ.identity i
  closure c c' := c' = ρ.closure c
  identity_iff := by
    rintro i _ j _ rfl rfl
    exact ρ.identity.injective.eq_iff.symm
  function_eq := by
    rintro i _ j rfl hj
    exact ρ.identity.injective hj
  closure_id := by
    rintro c _ rfl
    rfl
  closure_params := by
    rintro c _ rfl
    rfl

instance : ρ.link.Exact where
  function_eq := by
    rintro i _ _ rfl rfl
    rfl

end Renaming

variable {ρ : Renaming}

/-- What an activation keeps, under other numbers. -/
inductive Slot.Renamed (ρ : Renaming) : Slot → Slot → Prop where
  | value {v v' : Value} (h : Value.Related ρ.link v v') : Slot.Renamed ρ (.value v) (.value v')
  | declared (graph : Graph) (unit : Nat) (id : ValueId) :
    Slot.Renamed ρ (.declared graph unit id) (.declared graph (ρ.unit unit) id)

/-- An activation under other numbers. -/
structure Activation.Renamed (ρ : Renaming) (a a' : Activation) : Prop where
  shape : a'.shape = (a.parent.map ρ.scope, a.first, a.slots.size)
  slots : ∀ id, Option.Rel (Slot.Renamed ρ) (a.slot? id) (a'.slot? id)

/-- An image under other numbers. -/
structure Image.Renamed (ρ : Renaming) (i i' : Image) : Prop where
  constants : i'.constants = i.constants
  environment : ∀ id, Option.Rel (Value.Related ρ.link) (i.environment.get? id)
    (i'.environment.get? id)

/-- A machine under other numbers. Numbers that have not been given out are not renamed. -/
structure Machine.Renamed (ρ : Renaming) (m m' : Machine) : Prop where
  identities : m'.identities = m.identities
  images_size : m'.images.size = m.images.size
  images : ∀ unit, Option.Rel (Image.Renamed ρ) m.images[unit]? m'.images[ρ.unit unit]?
  activations_size : m'.activations.size = m.activations.size
  activations : ∀ scope,
    Option.Rel (Activation.Renamed ρ) m.activations[scope]? m'.activations[ρ.scope scope]?
  printed : m.printed.toList.Perm m'.printed.toList
  loads : m.loads.toList.Perm m'.loads.toList
  identity_fixed : ∀ i, m.identities ≤ i → ρ.identity i = i
  scope_fixed : ∀ i, m.activations.size ≤ i → ρ.scope i = i
  unit_fixed : ∀ i, m.images.size ≤ i → ρ.unit i = i

/-! ## Computations -/

/-- Computations that do the same on two machines. -/
def Run.RenamedAt (ρ : Renaming) {α β : Type} (R : α → β → Prop) (x : Run α) (x' : Run β)
    (m m' : Machine) : Prop :=
  ∀ r m₁, Yields (x m) r m₁ → ∃ r' m₁', Yields (x' m') r' m₁' ∧ Run.Agree R r r' ∧
    m₁.Renamed ρ m₁'

/-- Computations that do the same under other numbers. -/
def Run.Renamed (ρ : Renaming) {α β : Type} (R : α → β → Prop) (x : Run α) (x' : Run β) : Prop :=
  ∀ m m' : Machine, m.Renamed ρ m' → Run.RenamedAt ρ R x x' m m'

namespace Run.Renamed

variable {α β γ δ : Type} {R : α → β → Prop} {S : γ → δ → Prop}

theorem pure {a : α} {b : β} (h : R a b) : Run.Renamed ρ R (pure a) (pure b) := by
  intro m m' hm r m₁ hr
  cases hr
  exact ⟨_, m', .ok b m', .ok h, hm⟩

theorem fail (e : RunError) : Run.Renamed ρ R (fail e) (fail e) := by
  intro m m' hm r m₁ hr
  cases hr
  exact ⟨_, m', .error e m', .error e, hm⟩

theorem bind_at {x : Run α} {x' : Run β} {f : α → Run γ} {f' : β → Run δ} {m m' : Machine}
    (hx : Run.RenamedAt ρ R x x' m m') (hf : ∀ {a b}, R a b → Run.Renamed ρ S (f a) (f' b)) :
    Run.RenamedAt ρ S (x >>= f) (x' >>= f') m m' := by
  intro r m₁ hr
  rcases hr.bind_cases with ⟨a, m₂, ha, hr⟩ | ⟨e, he, rfl⟩
  · obtain ⟨_, m₂', hb, hR, hm⟩ := hx _ _ ha
    cases hR with
    | ok hR =>
      obtain ⟨r', m₁', hr', hS, hm'⟩ := hf hR _ _ hm _ _ hr
      exact ⟨r', m₁', hb.bind_ok hr', hS, hm'⟩
  · obtain ⟨_, m₂', hb, hR, hm⟩ := hx _ _ he
    cases hR with
    | error e => exact ⟨_, m₂', hb.bind_error, .error e, hm⟩

theorem bind {x : Run α} {x' : Run β} {f : α → Run γ} {f' : β → Run δ}
    (hx : Run.Renamed ρ R x x') (hf : ∀ {a b}, R a b → Run.Renamed ρ S (f a) (f' b)) :
    Run.Renamed ρ S (x >>= f) (x' >>= f') := fun _ _ hm => bind_at (hx _ _ hm) hf

end Run.Renamed

namespace Machine.Renamed

variable {m m' : Machine}

theorem slot? (h : m.Renamed ρ m') (scope : Nat) (id : ValueId) :
    Option.Rel (Slot.Renamed ρ) (m.slot? scope id) (m'.slot? (ρ.scope scope) id) := by
  have ha := h.activations scope
  unfold Machine.slot?
  generalize m.activations[scope]? = a, m'.activations[ρ.scope scope]? = a' at ha
  cases ha with
  | none => exact .none
  | some ha => exact ha.slots id

/-- Identities that are given out later are the same. -/
theorem minted (h : m.Renamed ρ m') (n : Nat) : (m.minted n).Renamed ρ (m'.minted n) :=
  ⟨congrArg (· + n) h.identities, h.images_size, h.images, h.activations_size, h.activations,
    h.printed, h.loads, fun i hi => h.identity_fixed i (Nat.le_trans (Nat.le_add_right _ _) hi),
    h.scope_fixed, h.unit_fixed⟩

theorem scope_eq_size (h : m.Renamed ρ m') (scope : Nat) :
    ρ.scope scope = m'.activations.size ↔ scope = m.activations.size := by
  rw [h.activations_size, ← h.scope_fixed _ (Nat.le_refl m.activations.size)]
  rw [ρ.scope.injective.eq_iff, h.scope_fixed _ (Nat.le_refl _)]

theorem unit_eq_size (h : m.Renamed ρ m') (unit : Nat) :
    ρ.unit unit = m'.images.size ↔ unit = m.images.size := by
  rw [h.images_size, ← h.unit_fixed _ (Nat.le_refl m.images.size)]
  rw [ρ.unit.injective.eq_iff, h.unit_fixed _ (Nat.le_refl _)]

theorem grow (h : m.Renamed ρ m') {a a' : Activation} (ha : a.Renamed ρ a') :
    (m.grow a).Renamed ρ (m'.grow a') := by
  refine ⟨h.identities, h.images_size, h.images, ?_, fun scope => ?_, h.printed, h.loads,
    h.identity_fixed, fun i hi => h.scope_fixed i ?_, h.unit_fixed⟩
  · show (m'.activations.push a').size = (m.activations.push a).size
    rw [Array.size_push, Array.size_push, h.activations_size]
  · rw [Machine.activations_grow, Machine.activations_grow]
    by_cases hs : scope = m.activations.size
    · rw [if_pos hs, if_pos ((h.scope_eq_size scope).mpr hs)]
      exact .some ha
    · rw [if_neg hs, if_neg fun hs' => hs ((h.scope_eq_size scope).mp hs')]
      exact h.activations scope
  · have hi' : (m.activations.push a).size ≤ i := hi
    rw [Array.size_push] at hi'
    omega

theorem addImage (h : m.Renamed ρ m') {i i' : Image} (hi : i.Renamed ρ i') :
    Machine.Renamed ρ { m with images := m.images.push i }
      { m' with images := m'.images.push i' } := by
  refine ⟨h.identities, ?_, fun unit => ?_, h.activations_size, h.activations, h.printed, h.loads,
    h.identity_fixed, h.scope_fixed, fun u hu => h.unit_fixed u ?_⟩
  · show (m'.images.push i').size = (m.images.push i).size
    rw [Array.size_push, Array.size_push, h.images_size]
  · show Option.Rel _ (m.images.push i)[unit]? (m'.images.push i')[ρ.unit unit]?
    rw [Array.getElem?_push, Array.getElem?_push]
    by_cases hu : unit = m.images.size
    · rw [if_pos hu, if_pos ((h.unit_eq_size unit).mpr hu)]
      exact .some hi
    · rw [if_neg hu, if_neg fun hu' => hu ((h.unit_eq_size unit).mp hu')]
      exact h.images unit
  · have hu' : (m.images.push i).size ≤ u := hu
    rw [Array.size_push] at hu'
    omega

end Machine.Renamed

namespace Activation.Renamed

variable {a a' : Activation}

theorem offset? (h : a.Renamed ρ a') (id : ValueId) : a'.offset? id = a.offset? id := by
  have hs := h.shape
  simp only [Activation.shape, Prod.mk.injEq] at hs
  simp only [Activation.offset?, hs.2.1, hs.2.2]

theorem blank (parent : Option Nat) (first : ValueId) (count : Nat) :
    (Activation.blank parent first count).Renamed ρ
      (Activation.blank (parent.map ρ.scope) first count) := by
  refine ⟨by simp [Activation.shape, Activation.blank], fun id => ?_⟩
  rw [Activation.slot?_blank, Activation.slot?_blank]
  exact .none

theorem put (h : a.Renamed ρ a') {id : ValueId} {o : Nat} (ho : a.offset? id = some o)
    {s s' : Slot} (hs : s.Renamed ρ s') : (a.put o s).Renamed ρ (a'.put o s') := by
  refine ⟨?_, fun id' => ?_⟩
  · have hp := Activation.shape_eq (Activation.shape_put a o s)
    rw [Activation.shape_put, h.shape, hp.1, hp.2.1, hp.2.2]
  · rw [Activation.slot?_put ho, Activation.slot?_put ((h.offset? id).trans ho)]
    split
    · exact .some hs
    · exact h.slots id'

end Activation.Renamed

theorem Machine.Renamed.store {m m' : Machine} (h : m.Renamed ρ m') {scope o : Nat}
    {a a' : Activation} (hx : m.activations[scope]? = some a)
    (hx' : m'.activations[ρ.scope scope]? = some a') (ha : a.Renamed ρ a') {id : ValueId}
    (ho : a.offset? id = some o) {s s' : Slot} (hs : s.Renamed ρ s') :
    (m.store scope o s).Renamed ρ (m'.store (ρ.scope scope) o s') := by
  refine ⟨h.identities, h.images_size, h.images, ?_, fun scope' => ?_, h.printed, h.loads,
    h.identity_fixed, fun i hi => h.scope_fixed i ?_, h.unit_fixed⟩
  · show (m'.activations.modify _ _).size = (m.activations.modify _ _).size
    rw [Array.size_modify, Array.size_modify, h.activations_size]
  · rw [Machine.activations_store, Machine.activations_store]
    by_cases he : scope = scope'
    · subst he
      rw [if_pos rfl, if_pos rfl, hx, hx']
      exact .some (ha.put ho hs)
    · rw [if_neg he, if_neg fun he' => he (ρ.scope.injective he')]
      exact h.activations scope'
  · have hi' : (m.activations.modify _ _).size ≤ i := hi
    rwa [Array.size_modify] at hi'

theorem Slot.Renamed.keep {v v' : Value} (h : Value.Related ρ.link v v') (scope : Nat) :
    (Slot.keep scope v).Renamed ρ (Slot.keep (ρ.scope scope) v') := by
  cases h with
  | function hf =>
    cases hf with
    | @closure i i' c c' hi hc =>
      obtain rfl : c' = ρ.closure c := hc
      unfold Slot.keep
      dsimp only
      have hscope : (ρ.closure c).scope = ρ.scope scope ↔ c.scope = scope :=
        ρ.scope.injective.eq_iff
      by_cases hs : c.scope = scope
      · rw [if_pos hs, if_pos (hscope.mpr hs)]
        exact .declared _ _ _
      · rw [if_neg hs, if_neg fun h => hs (hscope.mp h)]
        exact .value (.function (.closure hi rfl))
    | native n => exact .value (.function (.native n))
    | method m hi hv => exact .value (.function (.method m hi hv))
  | unit => exact .value .unit
  | bool b => exact .value (.bool b)
  | int n => exact .value (.int n)
  | float x => exact .value (.float x)
  | str s => exact .value (.str s)
  | tuple hs => exact .value (.tuple hs)
  | struct hf => exact .value (.struct hf)
  | library name hi hs => exact .value (.library name hi hs)

namespace Run.Renamed

theorem fresh : Run.Renamed ρ (fun i i' => i' = ρ.identity i) fresh fresh := by
  intro m m' hm r m₁ hr
  cases hr
  refine ⟨_, _, .ok m'.identities _, .ok ?_, hm.minted 1⟩
  rw [hm.identities, hm.identity_fixed _ (Nat.le_refl _)]

theorem read (scope : Nat) (id : ValueId) :
    Run.Renamed ρ (Option.Rel (Value.Related ρ.link)) (read scope id) (read (ρ.scope scope) id) := by
  intro m m' hm r m₁ hr
  have hs := hm.slot? scope id
  rw [read_apply] at hr
  rw [read_apply]
  generalize m.slot? scope id = s, m'.slot? (ρ.scope scope) id = s' at hs hr
  cases hs with
  | none =>
    cases hr
    exact ⟨_, m', .ok none m', .ok .none, hm⟩
  | some hs =>
    cases hs with
    | value hv =>
      cases hr
      exact ⟨_, m', .ok _ m', .ok (.some hv), hm⟩
    | declared graph unit id =>
      cases hr
      refine ⟨_, _, .ok _ _, .ok (.some (.function (.closure ?_ rfl))), hm.minted 1⟩
      show m'.identities = ρ.identity m.identities
      rw [hm.identities, hm.identity_fixed _ (Nat.le_refl _)]

theorem put (scope : Nat) (id : ValueId) {s s' : Slot} (hs : s.Renamed ρ s') :
    Run.Renamed ρ (fun _ _ => True) (put scope id s) (put (ρ.scope scope) id s') := by
  intro m m' hm r m₁ hr
  have ha := hm.activations scope
  have hslot := hm.slot? scope id
  unfold Run.put at hr ⊢
  generalize hx : m.activations[scope]? = x at ha hr
  generalize hx' : m'.activations[ρ.scope scope]? = x' at ha
  cases ha with
  | none =>
    cases hr
    exact ⟨_, m', .error _ m', .error _, hm⟩
  | @some a a' ha =>
    simp only [Option.bind_some] at hr ⊢
    rw [ha.offset? id]
    cases ho : a.offset? id with
    | none =>
      rw [ho] at hr
      cases hr
      exact ⟨_, m', .error _ m', .error _, hm⟩
    | some o =>
      rw [ho] at hr
      dsimp only at hr ⊢
      generalize m.slot? scope id = y, m'.slot? (ρ.scope scope) id = y' at hslot hr
      cases hslot with
      | some _ =>
        cases hr
        exact ⟨_, m', .error _ m', .error _, hm⟩
      | none =>
        cases hr
        exact ⟨_, _, .ok () _, .ok trivial, hm.store hx hx' ha ho hs⟩

theorem enter (parent : Option Nat) (first : ValueId) (count : Nat) :
    Run.Renamed ρ (fun s s' => s' = ρ.scope s) (enter parent first count)
      (enter (parent.map ρ.scope) first count) := by
  intro m m' hm r m₁ hr
  cases hr
  exact ⟨_, _, .ok m'.activations.size _, .ok ((hm.scope_eq_size _).mpr rfl).symm,
    hm.grow (.blank parent first count)⟩

theorem bindArguments (scope : Nat) (id : ValueId) {vs vs' : List Value}
    (h : Value.AllRelated ρ.link vs vs') : Run.Renamed ρ (fun _ _ => True)
      (bindArguments scope id vs) (bindArguments (ρ.scope scope) id vs') := by
  induction h generalizing id with
  | nil => exact pure trivial
  | cons hv _ ih => exact bind (put scope id (Slot.Renamed.keep hv scope)) fun _ => ih (id + 1)

theorem image (f : Frame) : Run.Renamed ρ (Image.Renamed ρ) f.image (ρ.frame f).image := by
  intro m m' hm r m₁ hr
  cases hr
  refine ⟨_, m', .ok _ m', .ok ?_, hm⟩
  have hi := hm.images f.unit
  show Image.Renamed ρ (m.images.getD f.unit default) (m'.images.getD (ρ.unit f.unit) default)
  rw [Array.getD_eq_getD_getElem?, Array.getD_eq_getD_getElem?]
  generalize m.images[f.unit]? = x, m'.images[ρ.unit f.unit]? = x' at hi
  cases hi with
  | some hi => exact hi
  | none =>
    refine ⟨rfl, fun id => ?_⟩
    have hnone : (default : Image).environment.get? id = none := by
      unfold Environment.get? Environment.entry?
      cases Environment.indexOf? id <;> rfl
    rw [Option.getD_none, hnone]
    exact .none

theorem constant (f : Frame) (id : ConstantId) :
    Run.Renamed ρ (Value.Related ρ.link) (f.constant id) ((ρ.frame f).constant id) := by
  unfold Frame.constant
  refine bind (image f) fun {i i'} hi => ?_
  rw [hi.constants]
  cases i.constants[id.toNat]? with
  | none => exact fail _
  | some c =>
    dsimp only
    cases hv : c.value? with
    | none => exact fail _
    | some v => exact pure (constant_fine c hv)

theorem fieldName (f : Frame) (id : ConstantId) :
    Run.Renamed ρ Eq (f.fieldName id) ((ρ.frame f).fieldName id) := by
  unfold Frame.fieldName
  refine bind (constant f id) fun hv => ?_
  cases hv with
  | str text => exact pure rfl
  | _ => exact fail _

end Run.Renamed

/-! ## Finding values -/

/-- Activations lie inside older ones. -/
def Machine.Nested (m : Machine) : Prop :=
  ∀ {scope : Nat} {a : Activation} {outer : Nat}, m.activations[scope]? = some a →
    a.parent = some outer → outer < scope

theorem Machine.Fine.nested {sites : Nat → Site} {m : Machine} (hm : m.Fine sites) : m.Nested := by
  intro scope a outer ha hp
  obtain ⟨g, around, haf⟩ := hm.activation ha
  cases around with
  | nil =>
    rw [(haf.root rfl).1] at hp
    cases hp
  | cons g' around =>
    obtain ⟨p, -, -, hp', hlt, -⟩ := haf.parent rfl
    rw [hp] at hp'
    cases hp'
    exact hlt

theorem Machine.Renamed.holder? {m m' : Machine} (h : m.Renamed ρ m') (hn : m.Nested)
    (hn' : m'.Nested) (id : ValueId) (scope : Nat) :
    m'.holder? id (ρ.scope scope) = (m.holder? id scope).map ρ.scope := by
  induction scope using Nat.strongRecOn with
  | ind scope ih =>
    have ha := h.activations scope
    rw [Machine.holder?, Machine.holder?]
    generalize hx : m.activations[scope]? = x at ha
    generalize hx' : m'.activations[ρ.scope scope]? = x' at ha
    cases ha with
    | none => rfl
    | @some a a' ha =>
      have hs := ha.shape
      simp only [Activation.shape, Prod.mk.injEq] at hs
      dsimp only
      rw [hs.2.1]
      by_cases hf : a.first ≤ id
      · rw [if_pos hf, if_pos hf]
        rfl
      · rw [if_neg hf, if_neg hf, hs.1]
        cases hp : a.parent with
        | none => rfl
        | some outer =>
          have hlt := hn hx hp
          have hp' : a'.parent = some (ρ.scope outer) := by rw [hs.1, hp]; rfl
          simp only [Option.map_some]
          rw [dif_pos hlt, dif_pos (hn' hx' hp'), ih outer hlt]

/-- The value that an activation keeps, or an error. -/
theorem Run.Renamed.expect (scope : Nat) (id : ValueId) :
    Run.Renamed ρ (Value.Related ρ.link)
      (do match ← Run.read scope id with
        | some v => return v
        | none => Run.fail (.unavailable id))
      (do match ← Run.read (ρ.scope scope) id with
        | some v => return v
        | none => Run.fail (.unavailable id)) := by
  refine Run.Renamed.bind (Run.Renamed.read scope id) fun hv => ?_
  cases hv with
  | none => exact Run.Renamed.fail _
  | some hv => exact Run.Renamed.pure hv

theorem Run.RenamedAt.find {m m' : Machine} (h : m.Renamed ρ m') (hn : m.Nested)
    (hn' : m'.Nested) (f : Frame) (id : ValueId) :
    Run.RenamedAt ρ (Value.Related ρ.link) (f.find id) ((ρ.frame f).find id) m m' := by
  unfold Frame.find
  split
  · refine Run.Renamed.bind_at (Run.Renamed.image f _ _ h) fun {i i'} hi => ?_
    have he := hi.environment id
    generalize i.environment.get? id = x, i'.environment.get? id = x' at he
    cases he with
    | none => exact Run.Renamed.fail _
    | some hv => exact Run.Renamed.pure hv
  · intro r m₁ hr
    have hh := h.holder? hn hn' id f.scope
    unfold Run.find at hr ⊢
    rw [bind_ok (show (get : Run Machine) m = .ok m m from rfl)] at hr
    rw [bind_ok (show (get : Run Machine) m' = .ok m' m' from rfl)]
    rw [show (ρ.frame f).scope = ρ.scope f.scope from rfl, hh]
    cases hx : m.holder? id f.scope with
    | none =>
      rw [hx] at hr
      exact Run.Renamed.fail _ _ _ h _ _ hr
    | some holder =>
      rw [hx] at hr
      exact Run.Renamed.expect holder id _ _ h _ _ hr

/-! ## Operations -/

/-- Operations under other numbers. -/
inductive Op.Renamed (ρ : Renaming) : {α : Type} → Op α → Op α → Prop where
  | idle : Op.Renamed ρ .idle .idle
  | find (f : Frame) (id : ValueId) : Op.Renamed ρ (.find f id) (.find (ρ.frame f) id)
  | constant (f : Frame) (id : ConstantId) :
    Op.Renamed ρ (.constant f id) (.constant (ρ.frame f) id)
  | fieldName (f : Frame) (id : ConstantId) :
    Op.Renamed ρ (.fieldName f id) (.fieldName (ρ.frame f) id)
  | mint : Op.Renamed ρ .mint .mint
  | print (text : String) : Op.Renamed ρ (.print text) (.print text)
  | note (target : String) : Op.Renamed ρ (.note target) (.note target)
  | addImage {i i' : Image} (h : i.Renamed ρ i') : Op.Renamed ρ (.addImage i) (.addImage i')
  | enter (g : Graph) (unit depth : Nat) (parent : Option Nat) {vs vs' : List Value}
    (h : Value.AllRelated ρ.link vs vs') : Op.Renamed ρ (.enter g unit depth parent vs)
      (.enter g (ρ.unit unit) depth (parent.map ρ.scope) vs')
  | put (scope : Nat) (id : ValueId) {s s' : Slot} (h : s.Renamed ρ s') :
    Op.Renamed ρ (.put scope id s) (.put (ρ.scope scope) id s')
  | result (scope : Nat) (id : ValueId) :
    Op.Renamed ρ (.result scope id) (.result (ρ.scope scope) id)

/-- Answers of an operation under other numbers. -/
def Op.Alike (ρ : Renaming) {α : Type} : Op α → α → α → Prop
  | find _ _, v, v' | constant _ _, v, v' | result _ _, v, v' => Value.Related ρ.link v v'
  | fieldName _ _, text, text' => text = text'
  | mint, i, i' => i' = ρ.identity i
  | addImage _, u, u' => u' = ρ.unit u
  | enter .., f, f' => f' = ρ.frame f
  | idle, _, _ | print _, _, _ | note _, _, _ | put .., _, _ => True

/-- Operations do the same under other numbers. -/
theorem Op.run_renamed {m m' : Machine} (h : m.Renamed ρ m') (hn : m.Nested) (hn' : m'.Nested)
    {α : Type} {op op' : Op α} (ho : op.Renamed ρ op') :
    Run.RenamedAt ρ (op.Alike ρ) op.run op'.run m m' := by
  cases ho with
  | idle => exact Run.Renamed.pure trivial _ _ h
  | find f id => exact Run.RenamedAt.find h hn hn' f id
  | constant f id => exact Run.Renamed.constant f id _ _ h
  | fieldName f id => exact Run.Renamed.fieldName f id _ _ h
  | mint => exact Run.Renamed.fresh _ _ h
  | print text =>
    intro r m₁ hr
    cases hr
    refine ⟨_, _, .ok () _, .ok trivial, h.identities, h.images_size, h.images, h.activations_size,
      h.activations, ?_, h.loads, h.identity_fixed, h.scope_fixed, h.unit_fixed⟩
    show (m.printed.push text).toList.Perm (m'.printed.push text).toList
    rw [Array.toList_push, Array.toList_push]
    exact h.printed.append_right _
  | note target =>
    intro r m₁ hr
    cases hr
    refine ⟨_, _, .ok () _, .ok trivial, h.identities, h.images_size, h.images, h.activations_size,
      h.activations, h.printed, ?_, h.identity_fixed, h.scope_fixed, h.unit_fixed⟩
    show (m.loads.push target).toList.Perm (m'.loads.push target).toList
    rw [Array.toList_push, Array.toList_push]
    exact h.loads.append_right _
  | addImage hi =>
    intro r m₁ hr
    cases hr
    exact ⟨_, _, .ok m'.images.size _, .ok ((h.unit_eq_size _).mpr rfl).symm, h.addImage hi⟩
  | enter g unit depth parent hs =>
    refine Run.Renamed.bind_at (Run.Renamed.enter parent g.first g.slotCount _ _ h) fun {s s'} he => ?_
    subst he
    exact Run.Renamed.bind (Run.Renamed.bindArguments s g.first hs) fun _ => Run.Renamed.pure rfl
  | put scope id hs => exact Run.Renamed.put scope id hs _ _ h
  | result scope id => exact Run.Renamed.expect scope id _ _ h

/-! ## One renaming after another -/

/-- One renaming after another. -/
def Renaming.trans (ρ σ : Renaming) : Renaming :=
  ⟨ρ.identity.trans σ.identity, ρ.scope.trans σ.scope, ρ.unit.trans σ.unit⟩

section Trans

variable {ρ σ : Renaming}

theorem Value.Related.trans {v v' v'' : Value} (h : Value.Related ρ.link v v')
    (h' : Value.Related σ.link v' v'') : Value.Related (ρ.trans σ).link v v'' := by
  refine h.comp ?_ ?_ ?_ h'
  · rintro i _ _ rfl rfl
    rfl
  · rintro i _ _ rfl rfl
    rfl
  · rintro c _ _ rfl rfl
    rfl

theorem Option.rel_comp {α : Type} {R S T : α → α → Prop} {x y z : Option α}
    (hx : Option.Rel R x y) (hy : Option.Rel S y z) (h : ∀ a b c, R a b → S b c → T a c) :
    Option.Rel T x z := by
  cases hx with
  | none =>
    cases hy
    exact .none
  | some hab =>
    cases hy with
    | some hbc => exact .some (h _ _ _ hab hbc)

theorem Slot.Renamed.trans {s s' s'' : Slot} (h : s.Renamed ρ s') (h' : s'.Renamed σ s'') :
    s.Renamed (ρ.trans σ) s'' := by
  cases h with
  | value hv =>
    cases h' with
    | value hv' => exact .value (hv.trans hv')
  | declared graph unit id =>
    cases h'
    exact .declared graph unit id

theorem Activation.Renamed.trans {a a' a'' : Activation} (h : a.Renamed ρ a')
    (h' : a'.Renamed σ a'') : a.Renamed (ρ.trans σ) a'' := by
  refine ⟨?_, fun id => Option.rel_comp (h.slots id) (h'.slots id) fun _ _ _ h h' => h.trans h'⟩
  have hs := h.shape
  simp only [Activation.shape, Prod.mk.injEq] at hs
  rw [h'.shape, hs.1, hs.2.1, hs.2.2, Option.map_map]
  rfl

theorem Image.Renamed.trans {i i' i'' : Image} (h : i.Renamed ρ i') (h' : i'.Renamed σ i'') :
    i.Renamed (ρ.trans σ) i'' :=
  ⟨h'.constants.trans h.constants, fun id =>
    Option.rel_comp (h.environment id) (h'.environment id) fun _ _ _ h h' => h.trans h'⟩

theorem Machine.Renamed.trans {m m' m'' : Machine} (h : m.Renamed ρ m') (h' : m'.Renamed σ m'') :
    m.Renamed (ρ.trans σ) m'' := by
  refine ⟨h'.identities.trans h.identities, h'.images_size.trans h.images_size,
    fun unit => Option.rel_comp (h.images unit) (h'.images _) fun _ _ _ h h' => h.trans h',
    h'.activations_size.trans h.activations_size,
    fun scope => Option.rel_comp (h.activations scope) (h'.activations _)
      fun _ _ _ h h' => h.trans h',
    h.printed.trans h'.printed, h.loads.trans h'.loads, fun i hi => ?_, fun i hi => ?_,
    fun i hi => ?_⟩
  · show σ.identity (ρ.identity i) = i
    rw [h.identity_fixed i hi, h'.identity_fixed i (h.identities ▸ hi)]
  · show σ.scope (ρ.scope i) = i
    rw [h.scope_fixed i hi, h'.scope_fixed i (h.activations_size ▸ hi)]
  · show σ.unit (ρ.unit i) = i
    rw [h.unit_fixed i hi, h'.unit_fixed i (h.images_size ▸ hi)]

end Trans

end Dataflow
