import Mathlib
import Dataflow.Run.Library

/-!
# Registering values

Entries are added behind the others and their names are distinct, so names and numbers determine
each other, and neither changes when more is registered.

* `Environment.tryRegister`, `tryRegisterAll`: an environment after attempts to register values;
* `Environment.Extends`: the entries of one environment come first in another one;
* `Environment.Indexed`: names, numbers and values of an environment belong together;
* `Environment.Reached`: environments that come about by registering;
* **`Environment.Reached.indexed`**: their names, numbers and values belong together.
-/

namespace Dataflow

namespace Environment

/-! ## Numbers and positions -/

theorem toInt_idAt {index : Nat} (h : index < 2 ^ 31) : (idAt index).toInt = -(index : Int) - 1 := by
  unfold idAt
  rw [Int32.toInt_sub, Int32.toInt_neg, Int32.toInt_ofNat_of_lt h, Int.bmod_sub_bmod]
  exact Int.bmod_eq_of_le (by show _ ≤ -(index : Int) - 1; omega)
    (by show -(index : Int) - 1 < _; omega)

theorem idAt_neg {index : Nat} (h : index < 2 ^ 31) : idAt index < 0 := by
  rw [Int32.lt_iff_toInt_lt, toInt_idAt h]
  show _ < (0 : Int)
  omega

theorem indexOf?_idAt {index : Nat} (h : index < 2 ^ 31) : indexOf? (idAt index) = some index := by
  rw [indexOf?, if_pos (idAt_neg h), toInt_idAt h]
  congr 1
  omega

/-- A number has a position if it is negative. -/
theorem indexOf?_eq_some_iff {id : ValueId} {index : Nat} :
    indexOf? id = some index ↔ id.toInt = -(index : Int) - 1 := by
  have hz : (0 : Int32).toInt = 0 := rfl
  unfold indexOf?
  split
  case isTrue hneg =>
    rw [Int32.lt_iff_toInt_lt, hz] at hneg
    rw [Option.some_inj]
    omega
  case isFalse hneg =>
    rw [Int32.lt_iff_toInt_lt, hz] at hneg
    constructor
    · intro h
      cases h
    · intro h
      omega

theorem idAt_of_indexOf? {id : ValueId} {index : Nat} (h : indexOf? id = some index) :
    index < 2 ^ 31 ∧ id = idAt index := by
  rw [indexOf?_eq_some_iff] at h
  have hlow := id.le_toInt
  have hlt : index < 2 ^ 31 := by omega
  exact ⟨hlt, Int32.toInt.inj (by rw [h, toInt_idAt hlt])⟩

/-- The entry with a number stands at its position. -/
theorem entry?_eq_some_iff {e : Environment} {id : ValueId} {entry : String × Value} :
    e.entry? id = some entry ↔ ∃ index, indexOf? id = some index ∧ e.entries[index]? = some entry :=
  Option.bind_eq_some_iff

theorem entry?_idAt {e : Environment} {index : Nat} (h : index < 2 ^ 31) :
    e.entry? (idAt index) = e.entries[index]? := by
  show (indexOf? (idAt index)).bind _ = _
  rw [indexOf?_idAt h]
  rfl

/-! ## Environments that extend others -/

/-- The entries of `e` come first in `e'`. -/
def Extends (e e' : Environment) : Prop := e.entries <+: e'.entries

namespace Extends

variable {e e' e'' : Environment}

theorem refl (e : Environment) : e.Extends e := List.prefix_rfl

theorem trans (h : e.Extends e') (h' : e'.Extends e'') : e.Extends e'' := List.IsPrefix.trans h h'

theorem size_le (h : e.Extends e') : e.size ≤ e'.size := List.IsPrefix.length_le h

theorem idOf? (h : e.Extends e') {name : String} {id : ValueId} (hid : e.idOf? name = some id) :
    e'.idOf? name = some id := by
  obtain ⟨more, hmore⟩ := h
  obtain ⟨index, hi, rfl⟩ := Option.map_eq_some_iff.mp hid
  rw [Environment.idOf?, ← hmore, List.findIdx?_append, hi]
  rfl

theorem entry? (h : e.Extends e') {id : ValueId} {entry : String × Value}
    (he : e.entry? id = some entry) : e'.entry? id = some entry := by
  obtain ⟨index, hi, hx⟩ := entry?_eq_some_iff.mp he
  obtain ⟨more, hmore⟩ := h
  refine entry?_eq_some_iff.mpr ⟨index, hi, ?_⟩
  rw [← hmore, List.getElem?_append_left (List.getElem?_eq_some_iff.mp hx).1, hx]

theorem get? (h : e.Extends e') {id : ValueId} {v : Value} (hv : e.get? id = some v) :
    e'.get? id = some v := by
  obtain ⟨entry, he, rfl⟩ := Option.map_eq_some_iff.mp hv
  rw [Environment.get?, h.entry? he]
  rfl

theorem nameOf? (h : e.Extends e') {id : ValueId} {name : String} (hn : e.nameOf? id = some name) :
    e'.nameOf? id = some name := by
  obtain ⟨entry, he, rfl⟩ := Option.map_eq_some_iff.mp hn
  rw [Environment.nameOf?, h.entry? he]
  rfl

end Extends

/-! ## Names, numbers and values -/

/-- The names of the entries in order. -/
def names (e : Environment) : List String := e.entries.map Prod.fst

/-- Names are distinct, and the `n` entries have the numbers from `-1` down to `-n`, under which
their names and values are found; no other number has an entry. -/
structure Indexed (e : Environment) : Prop where
  distinct : e.names.Nodup
  inverse : ∀ {name id}, e.idOf? name = some id ↔ e.nameOf? id = some name
  entry : ∀ {index : Nat} {name v}, e.entries[index]? = some (name, v) → ∃ id : ValueId,
    id.toInt = -(index : Int) - 1 ∧ e.idOf? name = some id ∧ e.nameOf? id = some name ∧
      e.get? id = some v
  named : ∀ id, (e.nameOf? id).isSome = true ↔ -(e.size : Int) ≤ id.toInt ∧ id.toInt < 0
  valued : ∀ id, (e.get? id).isSome = true ↔ -(e.size : Int) ≤ id.toInt ∧ id.toInt < 0

/-- An entry is the first one with its name if names are distinct. -/
theorem idOf?_of_getElem? {e : Environment} (hn : e.names.Nodup) {index : Nat} {name : String}
    {v : Value} (h : e.entries[index]? = some (name, v)) : e.idOf? name = some (idAt index) := by
  have hlt : index < e.entries.length := (List.getElem?_eq_some_iff.mp h).1
  have hname : e.entries[index].1 = name := by
    rw [(List.getElem?_eq_some_iff.mp h).2]
  have hfind : e.entries.findIdx? (fun entry => entry.1 == name) = some index := by
    refine List.findIdx?_eq_some_iff_getElem.mpr ⟨hlt, by rw [hname, beq_self_eq_true], ?_⟩
    intro j hj hje
    rw [names, List.Nodup, List.pairwise_map, List.pairwise_iff_getElem] at hn
    exact hn j index _ hlt hj (by rw [hname]; simpa using hje)
  rw [Environment.idOf?, hfind]
  rfl

theorem isSome_entry?_iff {e : Environment} (id : ValueId) :
    (e.entry? id).isSome = true ↔ -(e.size : Int) ≤ id.toInt ∧ id.toInt < 0 := by
  rw [Option.isSome_iff_exists]
  simp only [entry?_eq_some_iff, indexOf?_eq_some_iff]
  constructor
  · rintro ⟨entry, index, hid, hx⟩
    have hlt : index < e.size := (List.getElem?_eq_some_iff.mp hx).1
    omega
  · rintro ⟨hlow, hneg⟩
    have hlt : (-id.toInt - 1).toNat < e.entries.length := by
      show _ < e.size
      omega
    exact ⟨_, (-id.toInt - 1).toNat, by omega, List.getElem?_eq_getElem hlt⟩

theorem indexed_of_nodup {e : Environment} (hn : e.names.Nodup) (hs : e.size ≤ 2 ^ 31) :
    e.Indexed := by
  have found {index : Nat} {name : String} {v : Value}
      (h : e.entries[index]? = some (name, v)) : index < 2 ^ 31 ∧
        e.idOf? name = some (idAt index) ∧ e.entry? (idAt index) = some (name, v) := by
    have hlt : index < 2 ^ 31 :=
      Nat.lt_of_lt_of_le (List.getElem?_eq_some_iff.mp h).1 hs
    exact ⟨hlt, idOf?_of_getElem? hn h, by rw [entry?_idAt hlt, h]⟩
  refine ⟨hn, fun {name id} => ⟨fun h => ?_, fun h => ?_⟩, fun {index name v} h => ?_, fun id => ?_,
    fun id => ?_⟩
  · obtain ⟨index, hi, rfl⟩ := Option.map_eq_some_iff.mp h
    obtain ⟨hlt, hname, -⟩ := List.findIdx?_eq_some_iff_getElem.mp hi
    obtain ⟨-, -, hentry⟩ := found (List.getElem?_eq_getElem hlt)
    rw [nameOf?, hentry]
    simpa using hname
  · obtain ⟨⟨name, v⟩, he, rfl⟩ := Option.map_eq_some_iff.mp h
    obtain ⟨index, hi, hx⟩ := entry?_eq_some_iff.mp he
    rw [(idAt_of_indexOf? hi).2]
    exact (found hx).2.1
  · obtain ⟨hlt, hid, hentry⟩ := found h
    refine ⟨idAt index, toInt_idAt hlt, hid, ?_, ?_⟩
    · rw [nameOf?, hentry]
      rfl
    · rw [get?, hentry]
      rfl
  · rw [nameOf?, Option.isSome_map]
    exact isSome_entry?_iff id
  · rw [get?, Option.isSome_map]
    exact isSome_entry?_iff id

/-! ## Registering -/

/-- The environment after an attempt to register a value: one that is refused changes nothing. -/
def tryRegister (e : Environment) (entry : String × Value) : Environment :=
  match e.register entry.1 entry.2 with
  | .ok (_, e') => e'
  | .error _ => e

/-- The environment after several attempts. -/
def tryRegisterAll (e : Environment) (entries : List (String × Value)) : Environment :=
  entries.foldl tryRegister e

/-- An environment that comes about by registering values in an empty or a standard one. -/
def Reached (e : Environment) : Prop := ∃ entries, e = empty.tryRegisterAll entries ∨
  ∃ identity, e = (prelude identity).tryRegisterAll entries

theorem isSome_idOf?_iff {e : Environment} {name : String} :
    (e.idOf? name).isSome = true ↔ name ∈ e.names := by
  rw [idOf?, Option.isSome_map, List.findIdx?_isSome, List.any_eq_true]
  simp [names]

/-- A value is refused if its name is taken; else it comes after all others. -/
theorem register_cases (e : Environment) (name : String) (v : Value) :
    (name ∈ e.names ∧ e.register name v = .error ⟨name⟩ ∧ e.tryRegister (name, v) = e) ∨
      (name ∉ e.names ∧ ∃ e', e.register name v = .ok (idAt e.size, e') ∧
        e'.entries = e.entries ++ [(name, v)] ∧ e.tryRegister (name, v) = e') := by
  rw [← isSome_idOf?_iff]
  unfold tryRegister register
  by_cases hn : (e.idOf? name).isSome = true
  · simp [hn]
  · simp [hn]

theorem extends_tryRegister (e : Environment) (entry : String × Value) :
    e.Extends (e.tryRegister entry) := by
  rcases e.register_cases entry.1 entry.2 with ⟨-, -, h⟩ | ⟨-, e', -, he, h⟩
  · rw [h]
    exact .refl e
  · rw [h]
    exact ⟨_, he.symm⟩

theorem extends_tryRegisterAll (e : Environment) (entries : List (String × Value)) :
    e.Extends (e.tryRegisterAll entries) := by
  induction entries generalizing e with
  | nil => exact .refl e
  | cons entry entries ih => exact (e.extends_tryRegister entry).trans (ih _)

theorem nodup_tryRegister {e : Environment} (hn : e.names.Nodup) (entry : String × Value) :
    (e.tryRegister entry).names.Nodup := by
  rcases e.register_cases entry.1 entry.2 with ⟨-, -, h⟩ | ⟨hnew, e', -, he, h⟩
  · rwa [h]
  · rw [h, names, he, List.map_append, List.nodup_append]
    refine ⟨hn, List.nodup_singleton _, fun a ha b hb => ?_⟩
    rintro rfl
    rw [List.map_singleton, List.mem_singleton] at hb
    exact hnew (hb ▸ ha)

theorem nodup_tryRegisterAll {e : Environment} (hn : e.names.Nodup)
    (entries : List (String × Value)) : (e.tryRegisterAll entries).names.Nodup := by
  induction entries generalizing e with
  | nil => exact hn
  | cons entry entries ih => exact ih (nodup_tryRegister hn entry)

namespace Reached

variable {e : Environment}

theorem tryRegisterAll (h : e.Reached) (more : List (String × Value)) :
    (e.tryRegisterAll more).Reached := by
  obtain ⟨entries, rfl | ⟨identity, rfl⟩⟩ := h
  · exact ⟨entries ++ more, .inl List.foldl_append.symm⟩
  · exact ⟨entries ++ more, .inr ⟨identity, List.foldl_append.symm⟩⟩

theorem nodup (h : e.Reached) : e.names.Nodup := by
  obtain ⟨entries, rfl | ⟨identity, rfl⟩⟩ := h
  · exact nodup_tryRegisterAll (show empty.names.Nodup from List.nodup_nil) entries
  · have hn : (prelude 0).names.Nodup := by decide
    exact nodup_tryRegisterAll (show (prelude identity).names.Nodup from hn) entries

/-- **Names, numbers and values of registered entries belong together.** -/
theorem indexed (h : e.Reached) (hs : e.size ≤ 2 ^ 31) : e.Indexed := indexed_of_nodup h.nodup hs

end Reached

end Environment

end Dataflow
