import Dataflow.Proofs.Graph.Numbers
import Dataflow.Proofs.Run.Memory
import Dataflow.Proofs.Value.Related

/-!
# Values that are there when they are read

A closure may go around only when all functions that can be reached from it have been declared, for
then the values that these have captured are there as well. So whatever a running block reads has
been written.

* `Site`: the levels that an activation lies in, innermost first;
* `Closure.Fine`, `Value.Fine`: closures and values that may go around;
* `Machine.Fine`: every activation belongs to a level and keeps only such values;
* `Found`: a number leads to a value that has been written, in an activation of the right level;
* **`Machine.Fine.found_of_needs`**: what a block needs is found once all that it waits for has been
  written.
-/

namespace Dataflow

/-- The levels that an activation lies in, its own first, and its unit. -/
structure Site where
  levels : List Graph
  unit : Nat
  deriving Inhabited

/-- All functions that can be reached from function `j` are declared in an activation. -/
def Ready (m : Machine) (g : Graph) (scope j : Nat) : Prop :=
  ∀ k, g.Reaches j k → (m.slot? scope (g.slot (g.params.toNat + k))).isSome = true

/-- A closure over an activation in which all that it can reach is declared. -/
structure Closure.Fine (sites : Nat → Site) (m : Machine) (c : Closure) : Prop where
  scope : c.scope < m.activations.size
  unit : (sites c.scope).unit = c.unit
  ready : ∃ g outer j, (sites c.scope).levels = g :: outer ∧
    g.blocks[j]? = some (.function c.id c.graph) ∧ Ready m g c.scope j

/-- Every value stands for itself, as long as its closures are fine. -/
def Link.same (sites : Nat → Site) (m : Machine) : Link where
  identity i i' := i = i' ∧ i < m.identities
  function i i' := i = i' ∧ i < m.identities
  closure c c' := c = c' ∧ c.Fine sites m
  identity_iff := by
    rintro i _ j _ ⟨rfl, -⟩ ⟨rfl, -⟩
    rfl
  function_eq := by
    rintro i _ j ⟨rfl, -⟩ ⟨rfl, -⟩
    rfl
  closure_id := by
    rintro c _ ⟨rfl, -⟩
    rfl
  closure_params := by
    rintro c _ ⟨rfl, -⟩
    rfl

instance (sites : Nat → Site) (m : Machine) : (Link.same sites m).Exact where
  function_eq := by
    rintro i _ _ ⟨rfl, -⟩ ⟨rfl, -⟩
    rfl

/-- All closures in the value are fine. -/
abbrev Value.Fine (sites : Nat → Site) (m : Machine) (v : Value) : Prop :=
  Value.Related (Link.same sites m) v v

/-- What activation `scope` may keep. -/
def Slot.Fine (sites : Nat → Site) (m : Machine) (scope : Nat) : Slot → Prop
  | .value v => v.Fine sites m
  | .declared graph unit id => (Closure.mk graph unit scope id).Fine sites m

/-- An activation of level `g` inside others, of which it keeps only fine values. -/
structure Activation.Fine (sites : Nat → Site) (m : Machine) (scope : Nat) (a : Activation)
    (g : Graph) (outer : List Graph) : Prop where
  levels : (sites scope).levels = g :: outer
  first : a.first = g.first
  size : a.slots.size = g.slotCount
  fits : g.Fits
  built : g.Built
  nonempty : g.blocks ≠ []
  params : ∀ n < g.params.toNat, ∃ s, a.slot? (g.slot n) = some s ∧ s.Fine sites m scope
  function : ∀ {j : Nat} {id body s}, g.blocks[j]? = some (.function id body) →
    a.slot? (g.slot (g.params.toNat + j)) = some s → s = .declared body (sites scope).unit id
  captured : ∀ {j : Nat} {id body}, g.blocks[j]? = some (.function id body) →
    (a.slot? (g.slot (g.params.toNat + j))).isSome = true → ∀ k, g.Reads j k →
    g.functionCount ≤ k → (a.slot? (g.slot (g.params.toNat + k))).isSome = true
  value : ∀ {j : Nat} {id is s}, g.blocks[j]? = some (.steps id is) →
    a.slot? (g.slot (g.params.toNat + j)) = some s → s.Fine sites m scope
  root : outer = [] → a.parent = none ∧ g.first = 0
  parent : ∀ {g' outer'}, outer = g' :: outer' → ∃ p j id, a.parent = some p ∧ p < scope ∧
    (sites p).levels = outer ∧ (sites p).unit = (sites scope).unit ∧
    g'.blocks[j]? = some (.function id g) ∧ Ready m g' p j

/-- Every activation belongs to a level, and all values that can be found are fine. -/
structure Machine.Fine (sites : Nat → Site) (m : Machine) : Prop where
  activation : ∀ {scope : Nat} {a : Activation}, m.activations[scope]? = some a →
    ∃ g outer, a.Fine sites m scope g outer
  unit : ∀ {scope}, scope < m.activations.size → (sites scope).unit < m.images.size
  image : ∀ {unit : Nat} {image : Image}, m.images[unit]? = some image → ∀ {id v},
    image.environment.get? id = some v → v.Fine sites m

/-! ## Machines that grow -/

/-- A machine later on: nothing that was there is lost. -/
structure Grows (sites : Nat → Site) (m : Machine) (sites' : Nat → Site) (m' : Machine) : Prop where
  identities : m.identities ≤ m'.identities
  images : ∀ {unit : Nat} {image : Image}, m.images[unit]? = some image →
    m'.images[unit]? = some image
  sites : ∀ {scope}, scope < m.activations.size → sites' scope = sites scope
  activations : ∀ {scope : Nat} {a : Activation}, m.activations[scope]? = some a → ∃ a',
    m'.activations[scope]? = some a' ∧ a'.shape = a.shape ∧
      ∀ {id s}, a.slot? id = some s → a'.slot? id = some s

namespace Grows

variable {sites sites' sites'' : Nat → Site} {m m' m'' : Machine}

theorem refl (sites : Nat → Site) (m : Machine) : Grows sites m sites m :=
  ⟨Nat.le_refl _, id, fun _ => rfl, fun h => ⟨_, h, rfl, id⟩⟩

theorem size_le (h : Grows sites m sites' m') : m.activations.size ≤ m'.activations.size := by
  refine Nat.le_of_not_lt fun hlt => ?_
  obtain ⟨a', ha', -⟩ := h.activations (Array.getElem?_eq_getElem hlt)
  rw [Array.getElem?_eq_none (Nat.le_refl _)] at ha'
  cases ha'

theorem trans (h : Grows sites m sites' m') (h' : Grows sites' m' sites'' m'') :
    Grows sites m sites'' m'' := by
  refine ⟨Nat.le_trans h.identities h'.identities, fun hu => h'.images (h.images hu),
    fun hs => (h'.sites (Nat.lt_of_lt_of_le hs h.size_le)).trans (h.sites hs), fun ha => ?_⟩
  obtain ⟨a', ha', hs', hk'⟩ := h.activations ha
  obtain ⟨a'', ha'', hs'', hk''⟩ := h'.activations ha'
  exact ⟨a'', ha'', hs''.trans hs', fun hx => hk'' (hk' hx)⟩

theorem slot? (h : Grows sites m sites' m') {scope : Nat} {id : ValueId} {s : Slot}
    (hs : m.slot? scope id = some s) : m'.slot? scope id = some s := by
  obtain ⟨a, ha, hs⟩ := Machine.slot?_eq_some_iff.mp hs
  obtain ⟨a', ha', -, hk⟩ := h.activations ha
  exact Machine.slot?_eq_some_iff.mpr ⟨a', ha', hk hs⟩

theorem slot?_isSome (h : Grows sites m sites' m') {scope : Nat} {id : ValueId}
    (hs : (m.slot? scope id).isSome = true) : (m'.slot? scope id).isSome = true := by
  obtain ⟨s, hs⟩ := Option.isSome_iff_exists.mp hs
  rw [h.slot? hs]
  rfl

theorem ready (h : Grows sites m sites' m') {g : Graph} {scope j : Nat} (hr : Ready m g scope j) :
    Ready m' g scope j := fun k hk => h.slot?_isSome (hr k hk)

theorem closure (h : Grows sites m sites' m') {c : Closure} (hc : c.Fine sites m) :
    c.Fine sites' m' := by
  obtain ⟨hs, hu, g, outer, j, hl, hb, hr⟩ := hc
  refine ⟨Nat.lt_of_lt_of_le hs h.size_le, ?_, g, outer, j, ?_, hb, h.ready hr⟩
  · rw [h.sites hs, hu]
  · rw [h.sites hs, hl]

theorem link (h : Grows sites m sites' m') : (Link.same sites m).Le (Link.same sites' m') where
  identity hi := ⟨hi.1, Nat.lt_of_lt_of_le hi.2 h.identities⟩
  function hi := ⟨hi.1, Nat.lt_of_lt_of_le hi.2 h.identities⟩
  closure hc := ⟨hc.1, h.closure hc.2⟩

theorem value (h : Grows sites m sites' m') {v : Value} (hv : v.Fine sites m) :
    v.Fine sites' m' := hv.mono h.link

theorem slot (h : Grows sites m sites' m') {scope : Nat} {s : Slot} (hs : s.Fine sites m scope) :
    s.Fine sites' m' scope := by
  cases s with
  | value v => exact h.value hs
  | declared graph unit id => exact h.closure hs

/-- An activation whose values are not touched stays fine. -/
theorem activation (h : Grows sites m sites' m') {scope : Nat} {a : Activation} {g : Graph}
    {outer : List Graph} (hs : scope < m.activations.size) (ha : a.Fine sites m scope g outer) :
    a.Fine sites' m' scope g outer := by
  have hsite := h.sites hs
  refine ⟨hsite ▸ ha.levels, ha.first, ha.size, ha.fits, ha.built, ha.nonempty, fun n hn => ?_,
    fun hb hx => ?_, ha.captured, fun hb hx => h.slot (ha.value hb hx), ha.root, fun ho => ?_⟩
  · obtain ⟨s, hx, hf⟩ := ha.params n hn
    exact ⟨s, hx, h.slot hf⟩
  · rw [hsite]
    exact ha.function hb hx
  · obtain ⟨p, j, id, hp, hlt, hl, hu, hb, hr⟩ := ha.parent ho
    have hps : p < m.activations.size := Nat.lt_trans hlt hs
    exact ⟨p, j, id, hp, hlt, by rw [h.sites hps, hl], by rw [h.sites hps, hsite, hu], hb,
      h.ready hr⟩

end Grows

/-! ## Finding values -/

namespace Machine

variable {m : Machine} {scope : Nat} {a : Activation} {id : ValueId}

theorem holder?_here (ha : m.activations[scope]? = some a) (hf : a.first ≤ id) :
    m.holder? id scope = some scope := by
  rw [holder?, ha]
  simp only [hf, ↓reduceIte]

theorem holder?_outer {outer : Nat} (ha : m.activations[scope]? = some a) (hf : id < a.first)
    (hp : a.parent = some outer) (hlt : outer < scope) : m.holder? id scope = m.holder? id outer := by
  rw [holder?, ha]
  simp only [Int32.not_le.mpr hf, ↓reduceIte, hp, hlt, ↓reduceDIte]

end Machine

/-- A number leads to a value that has been written and is fine. It is kept by an activation of the
innermost level that does not start above the number. -/
def Found (sites : Nat → Site) (m : Machine) (id : ValueId) (scope : Nat) : Prop :=
  ∃ holder s, m.holder? id scope = some holder ∧
    (sites holder).levels = (sites scope).levels.dropWhile (fun g => id < g.first) ∧
    m.slot? holder id = some s ∧ s.Fine sites m holder

namespace Machine.Fine

variable {sites : Nat → Site} {m : Machine} {scope : Nat} {a : Activation} {g : Graph}
  {outer : List Graph} {id : ValueId}

theorem of_slot? (ha : m.activations[scope]? = some a) (haf : a.Fine sites m scope g outer)
    (hf : g.first ≤ id) {s : Slot} (hs : a.slot? id = some s) (hsf : s.Fine sites m scope) :
    Found sites m id scope := by
  refine ⟨scope, s, holder?_here ha (haf.first ▸ hf), ?_, ?_, hsf⟩
  · rw [haf.levels, List.dropWhile_cons_of_neg]
    simpa using hf
  · rw [slot?_eq_of_activation ha, hs]

/-- A declared function from which everything is reachable. -/
theorem function_fine (hs : scope < m.activations.size) (haf : a.Fine sites m scope g outer)
    {j : Nat} {i : ValueId} {body : Graph} (hb : g.blocks[j]? = some (.function i body))
    (hr : Ready m g scope j) : (Slot.declared body (sites scope).unit i).Fine sites m scope :=
  ⟨hs, rfl, g, outer, j, haf.levels, hb, hr⟩

/-- Blocks of a level are functions or instructions by their position. -/
theorem block_cases (hw : g.WellBuilt) {k : Nat} (hk : k < g.blocks.length) :
    (k < g.functionCount ∧ ∃ i body, g.blocks[k]? = some (.function i body)) ∨
    (g.functionCount ≤ k ∧ ∃ i is, g.blocks[k]? = some (.steps i is)) := by
  have hb := List.getElem?_eq_getElem hk
  have hf := hw.isFunction_iff hb
  cases hbk : g.blocks[k] with
  | steps i is =>
    rw [hbk] at hb hf
    exact .inr ⟨by simpa [Block.isFunction] using hf, i, is, hb⟩
  | function i body =>
    rw [hbk] at hb hf
    exact .inl ⟨hf.mp rfl, i, body, hb⟩

/-- Needs of a block that its own level has to serve. -/
theorem found_here (ha : m.activations[scope]? = some a) (haf : a.Fine sites m scope g outer)
    (h0 : 0 ≤ id) (hf : g.first ≤ id) {i : Nat} {b : Block} (hb : g.blocks[i]? = some b)
    (hid : id ∈ b.needs)
    (hwritten : ∀ k, g.Reads i k → (m.slot? scope (g.slot (g.params.toNat + k))).isSome = true)
    (hready : ∀ k < g.functionCount, g.Reads i k → Ready m g scope k) : Found sites m id scope := by
  have hw := haf.built.level
  have hs : scope < m.activations.size := (Array.getElem?_eq_some_iff.mp ha).1
  by_cases hp : id < g.base
  · obtain ⟨n, hn, rfl⟩ := haf.fits.param haf.nonempty hf hp
    obtain ⟨s, hx, hsf⟩ := haf.params n hn
    exact of_slot? ha haf hf hx hsf
  · have hna : ¬ Ambient g.first g.base id := by
      rintro (hneg | ⟨-, hlt⟩)
      · exact Int32.not_lt.mpr h0 hneg
      · exact hp hlt
    obtain ⟨k, hk, hm, -⟩ := hw.made hb hid hna hf
    have hr : g.Reads i k := ⟨b, hb, id, hid, hm⟩
    obtain ⟨s, hx⟩ := Option.isSome_iff_exists.mp (hwritten k hr)
    rw [slot?_eq_of_activation ha] at hx
    have hx' := hx
    rw [← hm.eq] at hx'
    refine of_slot? ha haf hf hx' ?_
    rcases block_cases hw hk with ⟨hkf, j, body, hbk⟩ | ⟨-, j, is, hbk⟩
    · rw [haf.function hbk hx]
      exact function_fine hs haf hbk (hready k hkf hr)
    · exact haf.value hbk hx

/-- Needs that a level around has to serve: the function of this level needs them there. -/
theorem found_outer (hm : m.Fine sites) (ha : m.activations[scope]? = some a)
    (haf : a.Fine sites m scope g outer) (h0 : 0 ≤ id) (hlt : id < g.first) {i : Nat} {b : Block}
    (hb : g.blocks[i]? = some b) (hid : id ∈ b.needs)
    (hparent : ∀ {p a' g' outer'} {j : Nat} {i' : ValueId}, p < scope →
      m.activations[p]? = some a' → a'.Fine sites m p g' outer' →
      g'.blocks[j]? = some (.function i' g) → Ready m g' p j →
      id ∈ (Block.function i' g).needs → Found sites m id p) : Found sites m id scope := by
  cases outer with
  | nil =>
    rw [(haf.root rfl).2] at hlt
    exact absurd h0 (Int32.not_le.mpr hlt)
  | cons g' outer' =>
    obtain ⟨p, j, i', hp, hps, hl, -, hb', hr'⟩ := haf.parent rfl
    have hpa : p < m.activations.size := Nat.lt_trans hps (Array.getElem?_eq_some_iff.mp ha).1
    obtain ⟨g'', outer'', haf'⟩ := hm.activation (Array.getElem?_eq_getElem hpa)
    have he := haf'.levels.symm.trans hl
    simp only [List.cons.injEq] at he
    obtain ⟨rfl, rfl⟩ := he
    have hid' : id ∈ (Block.function i' g).needs :=
      Block.mem_needs_function.mpr ⟨h0, hlt, _, List.mem_of_getElem? hb, hid⟩
    obtain ⟨holder, s, hh, hl', hx, hsf⟩ :=
      hparent hps (Array.getElem?_eq_getElem hpa) haf' hb' hr' hid'
    refine ⟨holder, s, ?_, ?_, hx, hsf⟩
    · rw [holder?_outer ha (haf.first ▸ hlt) hp hps, hh]
    · rw [hl', hl, haf.levels]
      exact (List.dropWhile_cons_of_pos (by simpa using hlt)).symm

/-- What a declared function needs is found in the activation it is declared in, or further out. -/
theorem found_of_ready (hm : m.Fine sites) {j : Nat} {i : ValueId} {body : Graph}
    (ha : m.activations[scope]? = some a) (haf : a.Fine sites m scope g outer)
    (hb : g.blocks[j]? = some (.function i body)) (hr : Ready m g scope j)
    (hid : id ∈ (Block.function i body).needs) : Found sites m id scope := by
  induction scope using Nat.strongRecOn generalizing a g outer j i body with
  | ind scope ih =>
    have h0 : 0 ≤ id := (Block.mem_needs_function.mp hid).1
    have hj : j < g.functionCount := (haf.built.level.isFunction_iff hb).mp rfl
    by_cases hf : g.first ≤ id
    · refine found_here ha haf h0 hf hb hid (fun k hk => ?_) fun k hkf hk l hl => ?_
      · by_cases hkf : k < g.functionCount
        · exact hr k (.single ⟨hj, hkf, hk⟩)
        · have hown := hr j .refl
          rw [slot?_eq_of_activation ha] at hown ⊢
          exact haf.captured hb hown k hk (Nat.le_of_not_lt hkf)
      · exact hr l (.head ⟨hj, hkf, hk⟩ hl)
    · exact hm.found_outer ha haf h0 (Int32.not_le.mp hf) hb hid
        fun hps ha' haf' hb' hr' hid' => ih _ hps ha' haf' hb' hr' hid'

/-- What an instruction block needs is found once all that the block waits for has been written. -/
theorem found_of_needs (hm : m.Fine sites) (ha : m.activations[scope]? = some a)
    (haf : a.Fine sites m scope g outer) {i : Nat} {b : Block} (hb : g.blocks[i]? = some b)
    (hi : g.functionCount ≤ i)
    (hwait : ∀ k, i ∈ g.waiting k → (m.slot? scope (g.slot (g.params.toNat + k))).isSome = true)
    (hid : id ∈ b.needs) (h0 : 0 ≤ id) : Found sites m id scope := by
  have hw := haf.built.level
  by_cases hf : g.first ≤ id
  · refine found_here ha haf h0 hf hb hid (fun k hk => ?_) fun k hkf hk l hl => ?_
    · obtain ⟨b', hb', x, hx, hmk⟩ := hk
      rw [hb] at hb'
      cases hb'
      obtain ⟨k', hk', hmk', hlt⟩ := hw.made hb hx hmk.1 hmk.2.1
      have he := hmk.unique hmk'
      have hne := hlt hi
      exact hwait k (hw.waiting_iff.mpr ⟨by omega, .inl ⟨hi, b, hb, x, hx, hmk⟩⟩)
    · have hlf : l < g.functionCount := by
        rcases hl.cases_tail with he | ⟨c, -, hc⟩
        · exact he ▸ hkf
        · exact hc.2.1
      exact hwait l (hw.waiting_iff.mpr ⟨by omega, .inr (.inl ⟨hi, hlf, k, hkf, hk, hl⟩)⟩)
  · exact hm.found_outer ha haf h0 (Int32.not_le.mp hf) hb hid
      fun _ ha' haf' hb' hr' hid' => hm.found_of_ready ha' haf' hb' hr' hid'

end Machine.Fine

end Dataflow
