import Dataflow.Proofs.Run.Interleave
import Dataflow.Proofs.Run.Ready

/-!
# What operations keep

Every operation of an interleaved run leaves a machine on which all values that can be found are
fine, if it is done where it may be done.

* `Machine.Fine.of_same`: operations that leave activations and images alone;
* `Machine.Fine.addImage`, `Machine.Fine.grow`, `Machine.Fine.store`: the others;
* `Run.enter_bound`: what entering a graph makes of a machine;
* `Op.find_run`, `Op.result_run`: reading values that are there.
-/

namespace Dataflow

open Run

variable {sites : Nat → Site} {m : Machine}

/-! ## Activations and images left alone -/

/-- The same activations and images, and perhaps more identities. -/
theorem Grows.of_same {m' : Machine} (ha : m'.activations = m.activations)
    (hi : m'.images = m.images) (hn : m.identities ≤ m'.identities) : Grows sites m sites m' :=
  ⟨hn, fun h => hi ▸ h, fun _ => rfl, fun h => ⟨_, ha ▸ h, rfl, id⟩⟩

theorem Machine.Fine.of_same {m' : Machine} (hm : m.Fine sites)
    (ha : m'.activations = m.activations) (hi : m'.images = m.images)
    (hn : m.identities ≤ m'.identities) : m'.Fine sites := by
  have hg : Grows sites m sites m' := .of_same ha hi hn
  refine ⟨fun {scope a} h => ?_, fun h => ?_, fun {unit image} h {id v} hv => ?_⟩
  · rw [ha] at h
    obtain ⟨g, outer, haf⟩ := hm.activation h
    exact ⟨g, outer, hg.activation (Array.getElem?_eq_some_iff.mp h).1 haf⟩
  · rw [hi]
    exact hm.unit (ha ▸ h)
  · exact hg.value (hm.image (hi ▸ h) hv)

/-! ## A new image -/

theorem Grows.addImage (image : Image) :
    Grows sites m sites { m with images := m.images.push image } := by
  refine ⟨Nat.le_refl _, fun {unit i} h => ?_, fun _ => rfl, fun h => ⟨_, h, rfl, id⟩⟩
  have hlt := (Array.getElem?_eq_some_iff.mp h).1
  show (m.images.push image)[unit]? = some i
  rw [Array.getElem?_push, if_neg (by omega), h]

theorem Machine.Fine.addImage (hm : m.Fine sites) {image : Image}
    (hi : ∀ {id v}, image.environment.get? id = some v → v.Fine sites m) :
    Machine.Fine sites { m with images := m.images.push image } := by
  have hg : Grows sites m sites { m with images := m.images.push image } := .addImage image
  refine ⟨fun {scope a} h => ?_, fun {scope} h => ?_, fun {unit i} h {id v} hv => ?_⟩
  · obtain ⟨g, outer, haf⟩ := hm.activation h
    exact ⟨g, outer, hg.activation (Array.getElem?_eq_some_iff.mp h).1 haf⟩
  · show (sites scope).unit < (m.images.push image).size
    have := hm.unit h
    rw [Array.size_push]
    omega
  · have h' : (m.images.push image)[unit]? = some i := h
    rw [Array.getElem?_push] at h'
    split at h'
    · cases h'
      exact hg.value (hi hv)
    · exact hg.value (hm.image h' hv)

/-! ## A new activation -/

/-- Writes values from an offset on. -/
def Activation.putAll (a : Activation) (scope : Nat) : Nat → List Value → Activation
  | _, [] => a
  | n, v :: vs => (a.put n (.keep scope v)).putAll scope (n + 1) vs

namespace Activation

@[simp]
theorem shape_putAll (a : Activation) (scope n : Nat) (vs : List Value) :
    (a.putAll scope n vs).shape = a.shape := by
  induction vs generalizing a n with
  | nil => rfl
  | cons v vs ih => rw [putAll, ih, shape_put]

theorem shape_eq {a b : Activation} (h : a.shape = b.shape) :
    a.parent = b.parent ∧ a.first = b.first ∧ a.slots.size = b.slots.size := by
  simpa [shape] using h

variable {g : Graph} {a : Activation}

/-- What is kept after values have been written from an offset on. -/
theorem slot?_putAll (hg : g.Fits) (hf : a.first = g.first) (hs : a.slots.size = g.slotCount)
    (scope n : Nat) (vs : List Value) (hn : n + vs.length ≤ g.slotCount) {k : Nat}
    (hk : k < g.slotCount) : (a.putAll scope n vs).slot? (g.slot k) =
      if h : n ≤ k ∧ k < n + vs.length then some (.keep scope (vs.get ⟨k - n, by omega⟩))
      else a.slot? (g.slot k) := by
  induction vs generalizing a n with
  | nil =>
    rw [putAll, dif_neg]
    rintro ⟨h1, h2⟩
    simp only [List.length_nil] at h2
    omega
  | cons v vs ih =>
    simp only [List.length_cons] at hn
    have ho : a.offset? (g.slot n) = some n := hg.offset?_slot hf hs (by omega)
    have hshape := shape_eq (shape_put a n (.keep scope v))
    rw [putAll, ih (hshape.2.1.trans hf) (hshape.2.2.trans hs) (n + 1) (by omega)]
    by_cases he : k = n
    · subst he
      rw [dif_neg (by omega), slot?_put ho, if_pos rfl, dif_pos (by simp)]
      simp
    · by_cases hin : n + 1 ≤ k ∧ k < n + 1 + vs.length
      · rw [dif_pos hin, dif_pos (by simp only [List.length_cons]; omega)]
        have hsub : k - n = (k - (n + 1)) + 1 := by omega
        simp [hsub]
      · have hne : g.slot k ≠ g.slot n := fun h => he (hg.slot_inj hk (by omega) h)
        rw [dif_neg hin, slot?_put ho, if_neg hne, dif_neg]
        simp only [List.length_cons]
        omega

end Activation

namespace Run

variable {g : Graph}

theorem slot_add_one (g : Graph) (n : Nat) : g.slot n + 1 = g.slot (n + 1) := by
  rw [Graph.slot, Graph.slot, Int32.ofNat_add, Int32.add_assoc]
  rfl

theorem bindArguments_grow (hg : g.Fits) {a : Activation} (hf : a.first = g.first)
    (hs : a.slots.size = g.slotCount) (m : Machine) (n : Nat) (vs : List Value)
    (hn : n + vs.length ≤ g.slotCount)
    (hfree : ∀ k, n ≤ k → k < n + vs.length → a.slot? (g.slot k) = none) :
    bindArguments m.activations.size (g.slot n) vs (m.grow a) =
      .ok () (m.grow (a.putAll m.activations.size n vs)) := by
  induction vs generalizing a n with
  | nil => rfl
  | cons v vs ih =>
    simp only [List.length_cons] at hn hfree
    have ho : a.offset? (g.slot n) = some n := hg.offset?_slot hf hs (by omega)
    have hgrow : (m.grow a).activations[m.activations.size]? = some a := by
      rw [Machine.activations_grow, if_pos rfl]
    have hput : Run.write m.activations.size (g.slot n) v (m.grow a) =
        .ok () (m.grow (a.put n (.keep m.activations.size v))) := by
      rw [Run.write, put_of_slot?_eq_none hgrow ho (hfree n (by omega) (by omega)),
        Machine.store_grow]
    have hshape := Activation.shape_eq (Activation.shape_put a n (.keep m.activations.size v))
    refine (bind_ok hput).trans ?_
    rw [slot_add_one]
    refine ih (hshape.2.1.trans hf) (hshape.2.2.trans hs) (n + 1) (by omega) fun k hk hk' => ?_
    have hne : g.slot k ≠ g.slot n := fun h => by
      have := hg.slot_inj (by omega) (by omega) h
      omega
    rw [Activation.slot?_put ho, if_neg hne]
    exact hfree k (by omega) (by omega)

/-- The activation of a graph when its arguments have been written. -/
def bound (g : Graph) (parent : Option Nat) (scope : Nat) (args : List Value) : Activation :=
  (Activation.blank parent g.first g.slotCount).putAll scope 0 args

theorem enter_bound (hg : g.Fits) (unit depth : Nat) (parent : Option Nat) {args : List Value}
    (ha : args.length = g.params.toNat) (m : Machine) :
    (Op.enter g unit depth parent args).run m =
      .ok ⟨unit, m.activations.size, depth⟩ (m.grow (bound g parent m.activations.size args)) := by
  have hfirst : g.first = g.slot 0 := (Int32.add_zero _).symm
  have hb := bindArguments_grow (a := .blank parent g.first g.slotCount) hg rfl
    (by simp [Activation.blank]) m 0 args (by unfold Level.slotCount; omega)
    fun k _ _ => Activation.slot?_blank ..
  rw [← hfirst] at hb
  exact (bind_ok (enter_apply parent g.first g.slotCount m)).trans ((bind_ok hb).trans rfl)

end Run

/-- The sites with one more activation. -/
def Site.grow (sites : Nat → Site) (m : Machine) (levels : List Graph) (unit : Nat) : Nat → Site :=
  Function.update sites m.activations.size ⟨levels, unit⟩

theorem Grows.grow (a : Activation) (levels : List Graph) (unit : Nat) :
    Grows sites m (Site.grow sites m levels unit) (m.grow a) := by
  refine ⟨Nat.le_refl _, id, fun {scope} h => ?_, fun {scope b} h => ?_⟩
  · exact Function.update_of_ne (by omega) _ _
  · have hlt := (Array.getElem?_eq_some_iff.mp h).1
    refine ⟨b, ?_, rfl, id⟩
    rw [Machine.activations_grow, if_neg (by omega), h]

/-- A graph that may be entered from an activation, or as the graph of a program. -/
structure Callable (P : Graph → Prop) (sites : Nat → Site) (m : Machine) (g : Graph) (unit : Nat)
    (parent : Option Nat) (args : List Value) : Prop where
  built : g.Built
  length : args.length = g.params.toNat
  args_fine : Value.AllRelated (Link.same sites m) args args
  unit_lt : unit < m.images.size
  of_none : parent = none → g.first = 0 ∧ P g
  of_some : ∀ {p}, parent = some p → p < m.activations.size ∧ (sites p).unit = unit ∧
    ∃ g' outer j id, (sites p).levels = g' :: outer ∧ g'.blocks[j]? = some (.function id g) ∧
      Ready m g' p j

/-- The levels of a graph that is entered. -/
def levelsOf (sites : Nat → Site) (g : Graph) (parent : Option Nat) : List Graph :=
  g :: match parent with
    | none => []
    | some p => (sites p).levels

theorem Slot.fine_keep {scope : Nat} {v : Value} (hv : v.Fine sites m) :
    (Slot.keep scope v).Fine sites m scope := by
  unfold Slot.keep
  split
  case h_1 identity c =>
    split
    case isTrue he =>
      cases hv with
      | function hf =>
        cases hf with
        | closure _ hc =>
          subst he
          exact hc.2
    case isFalse => exact hv
  case h_2 => exact hv

theorem AllFine.get {vs : List Value} (h : Value.AllRelated (Link.same sites m) vs vs)
    (i : Fin vs.length) : (vs.get i).Fine sites m := List.forall₂_same.mp h _ (List.get_mem vs i)

section Grow

variable {P : Graph → Prop} {g : Graph} {unit : Nat} {parent : Option Nat} {args : List Value}

/-- The activation of a graph that was entered. -/
theorem Callable.activation (hc : Callable P sites m g unit parent args) (hg : g.Fits)
    (hne : g.blocks ≠ []) :
    (bound g parent m.activations.size args).Fine
      (Site.grow sites m (levelsOf sites g parent) unit)
      (m.grow (bound g parent m.activations.size args)) m.activations.size g
      (levelsOf sites g parent).tail := by
  have hgrows : Grows sites m (Site.grow sites m (levelsOf sites g parent) unit)
    (m.grow (bound g parent m.activations.size args)) := .grow _ _ _
  have hshape := Activation.shape_eq (Activation.shape_putAll
    (.blank parent g.first g.slotCount) m.activations.size 0 args)
  have hslots : args.length ≤ g.slotCount := by
    rw [hc.length]
    unfold Level.slotCount
    omega
  have hslot {k : Nat} (hk : k < g.slotCount) :
      (bound g parent m.activations.size args).slot? (g.slot k) =
        if h : k < args.length then some (.keep m.activations.size (args.get ⟨k, h⟩)) else none := by
    rw [bound, Activation.slot?_putAll hg rfl (by simp [Activation.blank]) _ 0 args (by omega) hk]
    by_cases h : k < args.length
    · rw [dif_pos (by omega), dif_pos h]
      rfl
    · rw [dif_neg (by omega), dif_neg h, Activation.slot?_blank]
  have hblock {j : Nat} {b : Block} (hb : g.blocks[j]? = some b) :
      (bound g parent m.activations.size args).slot? (g.slot (g.params.toNat + j)) = none := by
    have hj := (List.getElem?_eq_some_iff.mp hb).1
    rw [hslot (by unfold Level.slotCount; omega), dif_neg (by rw [hc.length]; omega)]
  have hsite : Site.grow sites m (levelsOf sites g parent) unit m.activations.size =
      ⟨levelsOf sites g parent, unit⟩ := Function.update_self ..
  refine ⟨?_, hshape.2.1, ?_, hg, hc.built, hne, fun n hn => ?_, fun hb hx => ?_, fun hb hx => ?_,
    fun hb hx => ?_, fun ho => ?_, fun {g' outer'} ho => ?_⟩
  · rw [hsite]
    rfl
  · rw [bound, hshape.2.2]
    simp [Activation.blank]
  · rw [hslot (by unfold Level.slotCount; omega), dif_pos (by rw [hc.length]; exact hn)]
    exact ⟨_, rfl, hgrows.slot (Slot.fine_keep (AllFine.get hc.args_fine _))⟩
  · rw [hblock hb] at hx
    cases hx
  · rw [hblock hb] at hx
    cases hx
  · rw [hblock hb] at hx
    cases hx
  · cases parent with
    | none => exact ⟨hshape.1, (hc.of_none rfl).1⟩
    | some p =>
      obtain ⟨-, -, g', outer', -, -, hl, -⟩ := hc.of_some rfl
      simp [levelsOf, hl] at ho
  · cases parent with
    | none => simp [levelsOf] at ho
    | some p =>
      obtain ⟨hp, hu, g'', outer'', j, id, hl, hb, hr⟩ := hc.of_some rfl
      have he : (sites p).levels = g' :: outer' := ho
      rw [hl] at he
      cases he
      refine ⟨p, j, id, hshape.1, hp, ?_, ?_, hb, hgrows.ready hr⟩
      · rw [hgrows.sites hp]
        rfl
      · rw [hgrows.sites hp, hsite, hu]

theorem Machine.Fine.grow (hm : m.Fine sites) (hc : Callable P sites m g unit parent args)
    (hg : g.Fits) (hne : g.blocks ≠ []) :
    (m.grow (bound g parent m.activations.size args)).Fine
      (Site.grow sites m (levelsOf sites g parent) unit) := by
  have hgrows : Grows sites m (Site.grow sites m (levelsOf sites g parent) unit)
    (m.grow (bound g parent m.activations.size args)) := .grow _ _ _
  refine ⟨fun {scope a} h => ?_, fun {scope} h => ?_,
    fun {unit image} h {id v} hv => hgrows.value (hm.image h hv)⟩
  · rw [Machine.activations_grow] at h
    split at h
    case isTrue he =>
      subst he
      cases h
      exact ⟨g, _, hc.activation hg hne⟩
    case isFalse =>
      obtain ⟨g, outer, haf⟩ := hm.activation h
      exact ⟨g, outer, hgrows.activation (Array.getElem?_eq_some_iff.mp h).1 haf⟩
  · show _ < m.images.size
    by_cases he : scope = m.activations.size
    · rw [he, Site.grow, Function.update_self]
      exact hc.unit_lt
    · have hlt : scope < m.activations.size := by
        have : scope < (m.activations.push _).size := h
        rw [Array.size_push] at this
        omega
      rw [hgrows.sites hlt]
      exact hm.unit hlt

end Grow

/-! ## A value that is written -/

/-- What a block may write: fine values, or for a function its declaration, once the values that it
captures have been written. -/
def Block.MayWrite (sites : Nat → Site) (m : Machine) (scope : Nat) (g : Graph) (i : Nat) :
    Block → Slot → Prop
  | .steps _ _, s => s.Fine sites m scope
  | .function id body, s => s = .declared body (sites scope).unit id ∧
    ∀ k, g.Reads i k → g.functionCount ≤ k →
      (m.slot? scope (g.slot (g.params.toNat + k))).isSome = true

section Store

variable {scope i : Nat} {a : Activation} {g : Graph} {outer : List Graph} {b : Block} {s : Slot}

theorem Activation.Fine.id_eq (haf : a.Fine sites m scope g outer) (hb : g.blocks[i]? = some b) :
    b.id = g.slot (g.params.toNat + i) := by
  rw [haf.built.level.id_eq hb, Graph.base_add]

theorem Activation.Fine.offset?_block (haf : a.Fine sites m scope g outer)
    (hb : g.blocks[i]? = some b) :
    a.offset? (g.slot (g.params.toNat + i)) = some (g.params.toNat + i) := by
  have hi := (List.getElem?_eq_some_iff.mp hb).1
  exact haf.fits.offset?_slot haf.first haf.size (by unfold Level.slotCount; omega)

theorem put_block (ha : m.activations[scope]? = some a) (haf : a.Fine sites m scope g outer)
    (hb : g.blocks[i]? = some b) (hn : a.slot? (g.slot (g.params.toNat + i)) = none) (s : Slot) :
    Run.put scope b.id s m = .ok () (m.store scope (g.params.toNat + i) s) := by
  rw [haf.id_eq hb]
  exact put_of_slot?_eq_none ha (haf.offset?_block hb) hn s

theorem Grows.store (ha : m.activations[scope]? = some a) {id : ValueId} {o : Nat}
    (ho : a.offset? id = some o) (hn : a.slot? id = none) (s : Slot) :
    Grows sites m sites (m.store scope o s) := by
  refine ⟨Nat.le_refl _, fun h => h, fun _ => rfl, fun {scope' a'} h => ?_⟩
  rw [Machine.activations_store]
  split
  case isTrue he =>
    subst he
    rw [ha] at h
    cases h
    refine ⟨a.put o s, by rw [ha]; rfl, Activation.shape_put a o s, fun {id' s'} hs' => ?_⟩
    rw [Activation.slot?_put ho, if_neg, hs']
    rintro rfl
    rw [hn] at hs'
    cases hs'
  case isFalse => exact ⟨a', h, rfl, fun hs => hs⟩

theorem Machine.Fine.store (hm : m.Fine sites) (ha : m.activations[scope]? = some a)
    (haf : a.Fine sites m scope g outer) (hb : g.blocks[i]? = some b)
    (hn : a.slot? (g.slot (g.params.toNat + i)) = none) (hw : b.MayWrite sites m scope g i s) :
    (m.store scope (g.params.toNat + i) s).Fine sites := by
  have ho := haf.offset?_block hb
  have hg : Grows sites m sites (m.store scope (g.params.toNat + i) s) := .store ha ho hn s
  have hi := (List.getElem?_eq_some_iff.mp hb).1
  have hscope : scope < m.activations.size := (Array.getElem?_eq_some_iff.mp ha).1
  refine ⟨fun {scope' a'} h => ?_, fun {scope'} h => ?_,
    fun {unit image} h {id v} hv => hg.value (hm.image h hv)⟩
  · rw [Machine.activations_store] at h
    split at h
    case isFalse =>
      obtain ⟨g', outer', haf'⟩ := hm.activation h
      exact ⟨g', outer', hg.activation (Array.getElem?_eq_some_iff.mp h).1 haf'⟩
    case isTrue he =>
      subst he
      rw [ha, Option.map_some, Option.some.injEq] at h
      subst h
      have hold := hg.activation hscope haf
      have hshape := Activation.shape_eq (Activation.shape_put a (g.params.toNat + i) s)
      have hslot {k : Nat} (hk : k < g.slotCount) :
          (a.put (g.params.toNat + i) s).slot? (g.slot k) =
            if k = g.params.toNat + i then some s else a.slot? (g.slot k) := by
        rw [Activation.slot?_put ho]
        by_cases he : k = g.params.toNat + i
        · rw [if_pos he, if_pos (by rw [he])]
        · rw [if_neg he, if_neg]
          intro hs
          exact he (haf.fits.slot_inj hk (by unfold Level.slotCount; omega) hs)
      have hcount {j : Nat} (hj : j < g.blocks.length) : g.params.toNat + j < g.slotCount := by
        unfold Level.slotCount
        omega
      refine ⟨g, outer, hold.levels, hshape.2.1.trans haf.first, hshape.2.2.trans haf.size, haf.fits,
        haf.built, haf.nonempty, fun n hnp => ?_, fun {j id body x} hbj hx => ?_,
        fun {j id body} hbj hx k hr hk => ?_, fun {j id is x} hbj hx => ?_, fun hr => ?_,
        fun hp => ?_⟩
      · rw [hslot (by unfold Level.slotCount; omega), if_neg (by omega)]
        exact hold.params n hnp
      · have hj := (List.getElem?_eq_some_iff.mp hbj).1
        rw [hslot (hcount hj)] at hx
        split at hx
        case isTrue he =>
          obtain rfl : j = i := by omega
          rw [hb] at hbj
          cases hbj
          cases hx
          exact hw.1
        case isFalse => exact haf.function hbj hx
      · have hj := (List.getElem?_eq_some_iff.mp hbj).1
        have hkl : k < g.blocks.length := by
          obtain ⟨b', hb', x, hxm, hmk⟩ := hr
          obtain ⟨k', hk', hmk', -⟩ := haf.built.level.made hb' hxm hmk.1 hmk.2.1
          exact hmk.unique hmk' ▸ hk'
        rw [hslot (hcount hkl)]
        split
        · rfl
        · rw [hslot (hcount hj)] at hx
          split at hx
          case isTrue he =>
            obtain rfl : j = i := by omega
            rw [hb] at hbj
            cases hbj
            have := hw.2 k hr hk
            rwa [Machine.slot?_eq_of_activation ha] at this
          case isFalse => exact haf.captured hbj hx k hr hk
      · have hj := (List.getElem?_eq_some_iff.mp hbj).1
        rw [hslot (hcount hj)] at hx
        split at hx
        case isTrue he =>
          obtain rfl : j = i := by omega
          rw [hb] at hbj
          cases hbj
          cases hx
          exact hg.slot hw
        case isFalse => exact hg.slot (haf.value hbj hx)
      · exact ⟨hshape.1.trans (haf.root hr).1, (haf.root hr).2⟩
      · obtain ⟨p, j, id, hpar, hrest⟩ := hold.parent hp
        exact ⟨p, j, id, hshape.1.trans hpar, hrest⟩
  · have hlt : scope' < (m.activations.modify scope _).size := h
    rw [Array.size_modify] at hlt
    exact hm.unit hlt

end Store

/-! ## Values that are read -/

/-- The machine after so many identities have been given out. -/
def Machine.minted (m : Machine) (n : Nat) : Machine := { m with identities := m.identities + n }

theorem Grows.minted (m : Machine) (n : Nat) : Grows sites m sites (m.minted n) :=
  .of_same rfl rfl (Nat.le_add_right _ _)

theorem Machine.Fine.minted (hm : m.Fine sites) (n : Nat) : (m.minted n).Fine sites :=
  hm.of_same rfl rfl (Nat.le_add_right _ _)

/-- A value that has been written is read as it is, a declaration as a function of its own. -/
theorem read_fine {scope : Nat} {id : ValueId} {s : Slot} (hs : m.slot? scope id = some s)
    (hf : s.Fine sites m scope) : ∃ v n, Run.read scope id m = .ok (some v) (m.minted n) ∧
      v.Fine sites (m.minted n) := by
  rw [read_apply, hs]
  cases s with
  | value v => exact ⟨v, 0, rfl, hf⟩
  | declared graph unit i =>
    refine ⟨_, 1, rfl, .function (.closure ⟨rfl, ?_⟩ ⟨rfl, (Grows.minted m 1).closure hf⟩)⟩
    show m.identities < m.identities + 1
    omega

theorem find_fine {scope : Nat} {id : ValueId} (h : Found sites m id scope) :
    ∃ v n, Run.find scope id m = .ok v (m.minted n) ∧ v.Fine sites (m.minted n) := by
  obtain ⟨holder, s, hh, -, hs, hf⟩ := h
  obtain ⟨v, n, hr, hv⟩ := read_fine hs hf
  refine ⟨v, n, ?_, hv⟩
  unfold Run.find
  refine (bind_ok (show (get : Run Machine) m = .ok m m from rfl)).trans ?_
  rw [hh]
  exact (bind_ok hr).trans rfl

/-- The environment of a frame. -/
def Machine.environment (m : Machine) (f : Frame) : Environment :=
  (m.images.getD f.unit default).environment

/-- An operand is found, or it names a built-in value that does not exist. -/
theorem frame_find (hm : m.Fine sites) {f : Frame} {id : ValueId}
    (hs : f.scope < m.activations.size) (hu : (sites f.scope).unit = f.unit)
    (hf : 0 ≤ id → Found sites m id f.scope) :
    (∃ v n, f.find id m = .ok v (m.minted n) ∧ v.Fine sites (m.minted n)) ∨
    (id < 0 ∧ (m.environment f).get? id = none ∧
      f.find id m = .error (.error (.unavailable id)) m) := by
  by_cases h0 : id < 0
  · have hb : id.isBuiltin = true := by simpa [ValueId.isBuiltin] using h0
    rw [f.find_of_isBuiltin hb m, show (m.images.getD f.unit default).environment = m.environment f from rfl]
    cases hv : (m.environment f).get? id with
    | none => exact .inr ⟨h0, rfl, rfl⟩
    | some v =>
      refine .inl ⟨v, 0, rfl, ?_⟩
      have hlt : f.unit < m.images.size := hu ▸ hm.unit hs
      rw [Machine.environment, Array.getD_eq_getD_getElem?, Array.getElem?_eq_getElem hlt] at hv
      exact hm.image (Array.getElem?_eq_getElem hlt) hv
  · have hb : id.isBuiltin = false := by simpa [ValueId.isBuiltin] using h0
    have hfind : f.find id m = Run.find f.scope id m := by
      unfold Frame.find
      rw [hb]
      rfl
    rw [hfind]
    exact .inl (find_fine (hf (Int32.not_lt.mp h0)))

/-- The value of a constant has no functions in it. -/
theorem constant_fine (c : Constant) {v : Value} (h : c.value? = some v) {L : Link} :
    Value.Related L v v := by
  unfold Constant.value? at h
  split at h
  all_goals
    obtain ⟨x, -, rfl⟩ := Option.map_eq_some_iff.mp h
    constructor

/-- Constants are read without any change. -/
theorem frame_constant (f : Frame) (id : ConstantId) (m : Machine) {L : Link} :
    (∃ v, f.constant id m = .ok v m ∧ Value.Related L v v) ∨
    f.constant id m = .error (.error (.malformed (.missingConstant id))) m ∨
    f.constant id m = .error (.error (.malformed (.undecodable id))) m := by
  rw [f.constant_apply id m]
  cases (m.images.getD f.unit default).constants[id.toNat]? with
  | none => exact .inr (.inl rfl)
  | some c =>
    cases hv : c.value? with
    | none => exact .inr (.inr (by simp only [hv]))
    | some v => exact .inl ⟨v, by simp only [hv], constant_fine c hv⟩

end Dataflow
