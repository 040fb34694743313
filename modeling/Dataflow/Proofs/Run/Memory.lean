import Dataflow.Proofs.Run.Equations

/-!
# The memory of a machine

Activations are added and their values are written once; nothing else changes them.

* `Activation.slot?_put`: what is kept after a value has been written;
* `Run.put_eq_ok_iff`: when something can be written, and what the machine is then;
* `Machine.holder?_congr`: where a number belongs depends only on where activations start and on
  what is around them;
* `Run.read_eq`, `Run.find_eq_ok_iff`: reading values.
-/

namespace Dataflow

namespace Activation

/-- The activation without its values. -/
def shape (a : Activation) : Option Nat × ValueId × Nat := (a.parent, a.first, a.slots.size)

@[simp]
theorem shape_put (a : Activation) (offset : Nat) (s : Slot) : (a.put offset s).shape = a.shape := by
  simp [shape, put]

theorem offset?_congr {a b : Activation} (h : a.shape = b.shape) (id : ValueId) :
    a.offset? id = b.offset? id := by
  simp only [shape, Prod.mk.injEq] at h
  simp only [offset?, h.2.1, h.2.2]

theorem offset?_lt {a : Activation} {id : ValueId} {o : Nat} (h : a.offset? id = some o) :
    o < a.slots.size := by
  unfold offset? at h
  dsimp only at h
  split at h
  · simp only [Option.some.injEq] at h
    omega
  · exact absurd h (by simp)

theorem offset?_inj {a : Activation} {id id' : ValueId} {o : Nat} (h : a.offset? id = some o)
    (h' : a.offset? id' = some o) : id = id' := by
  unfold offset? at h h'
  dsimp only at h h'
  split at h
  · split at h'
    · simp only [Option.some.injEq] at h h'
      exact Int32.toInt.inj (by omega)
    · exact absurd h' (by simp)
  · exact absurd h (by simp)

theorem slot?_eq_some_iff {a : Activation} {id : ValueId} {s : Slot} :
    a.slot? id = some s ↔ ∃ o, a.offset? id = some o ∧ a.slots[o]? = some (some s) := by
  unfold slot?
  cases h : a.offset? id with
  | none => simp
  | some o =>
    cases h' : a.slots[o]? with
    | none => simp [h']
    | some x => simp [h']

/-- What is kept after something has been written under a number. -/
theorem slot?_put {a : Activation} {id : ValueId} {o : Nat} (ho : a.offset? id = some o) (s : Slot)
    (id' : ValueId) : (a.put o s).slot? id' = if id' = id then some s else a.slot? id' := by
  have hc := offset?_congr (shape_put a o s)
  split
  case isTrue h =>
    subst h
    refine slot?_eq_some_iff.mpr ⟨o, (hc id').trans ho, ?_⟩
    show (a.slots.modify o _)[o]? = _
    rw [Array.getElem?_modify, if_pos rfl, Array.getElem?_eq_getElem (offset?_lt ho)]
    rfl
  case isFalse h =>
    unfold slot?
    rw [hc]
    cases ho' : a.offset? id' with
    | none => rfl
    | some o' =>
      have hne : o ≠ o' := fun he => h (offset?_inj ho' (he ▸ ho))
      simp [put, Array.getElem?_modify, hne]

theorem slot?_blank (parent : Option Nat) (first : ValueId) (count : Nat) (id : ValueId) :
    (blank parent first count).slot? id = none := by
  unfold slot?
  cases h : (blank parent first count).offset? id with
  | none => rfl
  | some o =>
    have := offset?_lt h
    simp only [blank, Array.size_replicate] at this
    simp [blank, this]

end Activation

namespace Machine

theorem slot?_eq_some_iff {m : Machine} {scope : Nat} {id : ValueId} {s : Slot} :
    m.slot? scope id = some s ↔ ∃ a, m.activations[scope]? = some a ∧ a.slot? id = some s := by
  unfold slot?
  cases m.activations[scope]? <;> simp

theorem slot?_eq_of_activation {m : Machine} {scope : Nat} {a : Activation}
    (h : m.activations[scope]? = some a) (id : ValueId) : m.slot? scope id = a.slot? id := by
  simp [slot?, h]

/-- The machine with something written in an activation. -/
def store (m : Machine) (scope offset : Nat) (s : Slot) : Machine :=
  { m with activations := m.activations.modify scope (·.put offset s) }

theorem activations_store (m : Machine) (scope offset : Nat) (s : Slot) (i : Nat) :
    (m.store scope offset s).activations[i]? =
      if scope = i then m.activations[i]?.map (·.put offset s) else m.activations[i]? :=
  Array.getElem?_modify

/-- What activations hold after something has been written under a number. -/
theorem slot?_store {m : Machine} {scope o : Nat} {a : Activation} {id : ValueId}
    (ha : m.activations[scope]? = some a) (ho : a.offset? id = some o) (s : Slot) (scope' : Nat)
    (id' : ValueId) : (m.store scope o s).slot? scope' id' =
      if scope' = scope ∧ id' = id then some s else m.slot? scope' id' := by
  unfold slot?
  rw [activations_store]
  by_cases hs : scope = scope'
  · subst hs
    simp only [↓reduceIte, ha, Option.map_some, true_and]
    exact Activation.slot?_put ho s id'
  · simp [hs, Ne.symm hs]

/-- The machine with one more activation. -/
def grow (m : Machine) (a : Activation) : Machine :=
  { m with activations := m.activations.push a }

theorem activations_grow (m : Machine) (a : Activation) (i : Nat) :
    (m.grow a).activations[i]? = if i = m.activations.size then some a else m.activations[i]? :=
  Array.getElem?_push

theorem slot?_grow (m : Machine) (a : Activation) (scope : Nat) (id : ValueId) :
    (m.grow a).slot? scope id =
      if scope = m.activations.size then a.slot? id else m.slot? scope id := by
  unfold slot?
  rw [activations_grow]
  split <;> rfl

theorem store_grow (m : Machine) (a : Activation) (o : Nat) (s : Slot) :
    (m.grow a).store m.activations.size o s = m.grow (a.put o s) := by
  unfold store grow
  congr 1
  apply Array.ext_getElem?
  intro i
  rw [Array.getElem?_modify, Array.getElem?_push, Array.getElem?_push]
  by_cases h : i = m.activations.size
  · simp [h]
  · simp [h, Ne.symm h]

/-- Where a number belongs depends only on the shapes of activations. -/
theorem holder?_congr {m m' : Machine}
    (h : ∀ i : Nat, m'.activations[i]?.map Activation.shape = m.activations[i]?.map Activation.shape)
    (id : ValueId) (scope : Nat) : m'.holder? id scope = m.holder? id scope := by
  induction scope using Nat.strongRecOn with
  | ind scope ih =>
    have hs := h scope
    rw [holder?, holder?]
    cases ha : m.activations[scope]? with
    | none =>
      rw [ha, Option.map_none, Option.map_eq_none_iff] at hs
      rw [hs]
    | some a =>
      rw [ha] at hs
      obtain ⟨a', ha', he⟩ := Option.map_eq_some_iff.mp hs
      rw [ha']
      simp only [Activation.shape, Prod.mk.injEq] at he
      simp only [he.1, he.2.1]
      split
      · rfl
      · cases a.parent with
        | none => rfl
        | some outer =>
          dsimp only
          split
          case isTrue hlt => exact ih outer hlt
          case isFalse => rfl

end Machine

namespace Run

theorem enter_apply (parent : Option Nat) (first : ValueId) (count : Nat) (m : Machine) :
    enter parent first count m = .ok m.activations.size (m.grow (.blank parent first count)) := rfl

theorem print_apply (text : String) (m : Machine) :
    print text m = .ok () { m with printed := m.printed.push text } := rfl

theorem put_of_slot?_eq_none {m : Machine} {scope o : Nat} {a : Activation} {id : ValueId}
    (ha : m.activations[scope]? = some a) (ho : a.offset? id = some o) (hn : a.slot? id = none)
    (s : Slot) : put scope id s m = .ok () (m.store scope o s) := by
  unfold put
  simp only [ha, Option.bind_some, ho, m.slot?_eq_of_activation ha, hn]
  rfl

/-- When something can be written, and what the machine is then. -/
theorem put_eq_ok_iff {m m' : Machine} {scope : Nat} {id : ValueId} {s : Slot} {u : Unit} :
    put scope id s m = .ok u m' ↔ ∃ a o, m.activations[scope]? = some a ∧
      a.offset? id = some o ∧ a.slot? id = none ∧ m' = m.store scope o s := by
  constructor
  · intro h
    unfold put at h
    cases ha : m.activations[scope]? with
    | none => simp [ha] at h
    | some a =>
      cases ho : a.offset? id with
      | none => simp [ha, ho] at h
      | some o =>
        simp only [ha, Option.bind_some, ho, m.slot?_eq_of_activation ha] at h
        cases hs : a.slot? id with
        | some _ => simp [hs] at h
        | none =>
          simp only [hs, Option.isSome_none, Bool.false_eq_true, ↓reduceIte,
            EStateM.Result.ok.injEq] at h
          exact ⟨a, o, rfl, ho, hs, h.2.symm⟩
  · rintro ⟨a, o, ha, ho, hn, rfl⟩
    exact put_of_slot?_eq_none ha ho hn s

/-- The value of an activation under a number. -/
theorem read_apply (scope : Nat) (id : ValueId) (m : Machine) :
    read scope id m = match m.slot? scope id with
      | none => .ok none m
      | some (.value v) => .ok (some v) m
      | some (.declared graph unit id) =>
        .ok (some (.function (.closure m.identities ⟨graph, unit, scope, id⟩)))
          { m with identities := m.identities + 1 } := by
  unfold read
  rw [bind_ok (show (get : Run Machine) m = .ok m m from rfl)]
  cases m.slot? scope id with
  | none => rfl
  | some s => cases s <;> rfl

theorem find_apply (scope : Nat) (id : ValueId) (m : Machine) :
    find scope id m = match m.holder? id scope with
      | none => .error (.error (.unavailable id)) m
      | some holder =>
        match m.slot? holder id with
        | none => .error (.error (.unavailable id)) m
        | some (.value v) => .ok v m
        | some (.declared graph unit id) =>
          .ok (.function (.closure m.identities ⟨graph, unit, holder, id⟩))
            { m with identities := m.identities + 1 } := by
  unfold find
  rw [bind_ok (show (get : Run Machine) m = .ok m m from rfl)]
  cases m.holder? id scope with
  | none => rfl
  | some holder =>
    dsimp only
    rw [bind_apply, read_apply]
    cases m.slot? holder id with
    | none => rfl
    | some s => cases s <;> rfl

end Run

end Dataflow
