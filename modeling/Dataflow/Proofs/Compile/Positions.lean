import Dataflow.Proofs.Compile.Pool

/-!
# Pools as lists of constants

A pool that has been asked for the positions of some constants holds each of them once, in the order
in which they came first. As long as these positions fit into 32 bits, the constants are laid out in
this order, and different constants have different positions.

* `Constants.position`: the position of a constant among others;
* `Pool.ofConstants`: the pool of constants, and what asking for one more does to it;
* **`Pool.layout_ofConstants`**: what is laid out;
* `Pool.layout_ne_ok`: too many constants cannot be laid out.
-/

namespace Dataflow

/-! ## Lists without repetitions -/

section EraseDups

variable {α β : Type} [BEq α] [LawfulBEq α] [BEq β] [LawfulBEq β]

open Classical in
theorem eraseDups_concat (xs : List α) (a : α) :
    (xs ++ [a]).eraseDups = if a ∈ xs then xs.eraseDups else xs.eraseDups ++ [a] := by
  rw [List.eraseDups_append]
  split
  case isTrue h => simp [List.removeAll, h]
  case isFalse h => simp [List.removeAll, h, List.eraseDups_cons]

theorem eraseDups_prefix_append (xs ys : List α) : xs.eraseDups <+: (xs ++ ys).eraseDups := by
  rw [List.eraseDups_append]
  exact List.prefix_append _ _

theorem nodup_eraseDups (xs : List α) : xs.eraseDups.Nodup := by
  induction xs using List.reverseRecOn with
  | nil => exact List.nodup_nil
  | append_singleton xs a ih =>
    rw [eraseDups_concat]
    split
    case isTrue => exact ih
    case isFalse h =>
      refine List.nodup_append.mpr ⟨ih, List.nodup_singleton a, ?_⟩
      rintro b hb c hc rfl
      rw [List.mem_singleton.mp hc] at hb
      exact h (List.mem_eraseDups.mp hb)

/-- What is left out does not depend on how elements are told apart. -/
theorem eraseDups_map {f : α → β} {xs : List α} (hf : ∀ a ∈ xs, ∀ b ∈ xs, f a = f b → a = b) :
    (xs.map f).eraseDups = xs.eraseDups.map f := by
  induction xs using List.reverseRecOn with
  | nil => rfl
  | append_singleton xs a ih =>
    have hi := ih fun b hb c hc => hf b (List.mem_append_left _ hb) c (List.mem_append_left _ hc)
    have hmem : f a ∈ xs.map f ↔ a ∈ xs := by
      refine ⟨fun h => ?_, List.mem_map_of_mem⟩
      obtain ⟨b, hb, he⟩ := List.mem_map.mp h
      rwa [← hf b (List.mem_append_left _ hb) a (by simp) he]
    rw [List.map_append, List.map_singleton, eraseDups_concat, eraseDups_concat, hi]
    by_cases ha : a ∈ xs
    · rw [if_pos ha, if_pos (hmem.mpr ha)]
    · rw [if_neg ha, if_neg (mt hmem.mp ha), List.map_append, List.map_singleton]

end EraseDups

/-! ## Positions -/

namespace Constants

/-- The position of a constant among constants of which each one is counted when it comes first. -/
def position (cs : List Constant) (c : Constant) : ConstantId := .ofNat (cs.eraseDups.idxOf c)

/-- The positions of constants have 32 bits. -/
def Fit (cs : List Constant) : Prop := cs.eraseDups.length ≤ 2 ^ 32

theorem Fit.of_append {cs ds : List Constant} (h : Fit (cs ++ ds)) : Fit cs :=
  Nat.le_trans (eraseDups_prefix_append cs ds).length_le h

theorem position_append {cs : List Constant} {c : Constant} (h : c ∈ cs) (ds : List Constant) :
    position (cs ++ ds) c = position cs c := by
  rw [position, position, List.eraseDups_append,
    List.idxOf_append_of_mem (List.mem_eraseDups.mpr h)]

theorem toNat_position {cs : List Constant} (hf : Fit cs) {c : Constant} (h : c ∈ cs) :
    (position cs c).toNat = cs.eraseDups.idxOf c :=
  UInt32.toNat_ofNat_of_lt' (Nat.lt_of_lt_of_le
    (List.idxOf_lt_length_of_mem (List.mem_eraseDups.mpr h)) hf)

theorem getElem?_position {cs : List Constant} (hf : Fit cs) {c : Constant} (h : c ∈ cs) :
    cs.eraseDups[(position cs c).toNat]? = some c := by
  rw [toNat_position hf h, List.getElem?_idxOf (List.mem_eraseDups.mpr h)]

theorem position_inj {cs : List Constant} (hf : Fit cs) {c d : Constant} (hc : c ∈ cs) (hd : d ∈ cs)
    (h : position cs c = position cs d) : c = d := by
  have hx := getElem?_position hf hc
  rw [h, getElem?_position hf hd] at hx
  exact (Option.some.inj hx).symm

/-- The positions of all constants, in order. -/
theorem map_position {cs : List Constant} (hf : Fit cs) :
    (cs.eraseDups.map fun c => (position cs c).toNat) = List.range cs.eraseDups.length := by
  refine List.ext_getElem (by simp) fun i h _ => ?_
  rw [List.length_map] at h
  rw [List.getElem_map, List.getElem_range,
    toNat_position hf (List.mem_eraseDups.mp (List.getElem_mem h))]
  exact (nodup_eraseDups cs).idxOf_getElem i h

end Constants

/-! ## Pools -/

namespace Pool

open Constants

/-- The pool that holds constants, each at its position. -/
def ofConstants (cs : List Constant) : Pool :=
  ⟨(cs.zipIdx.map fun e => (e.1, UInt32.ofNat e.2)).reverse⟩

theorem ofConstants_nil : ofConstants [] = .empty := rfl

@[simp]
theorem size_ofConstants (cs : List Constant) : (ofConstants cs).size = cs.length := by
  simp [ofConstants, size]

theorem ofConstants_concat (cs : List Constant) (c : Constant) :
    ofConstants (cs ++ [c]) = ⟨(c, .ofNat cs.length) :: (ofConstants cs).entries⟩ := by
  simp [ofConstants, List.zipIdx_append]

theorem mem_ofConstants {cs : List Constant} {c : Constant} {id : ConstantId} :
    (c, id) ∈ (ofConstants cs).entries ↔ ∃ i : Nat, cs[i]? = some c ∧ id = .ofNat i := by
  simp only [ofConstants, List.mem_reverse, List.mem_map, Prod.exists, Prod.mk.injEq]
  constructor
  · rintro ⟨d, i, hm, rfl, rfl⟩
    exact ⟨i, by simpa [List.mem_zipIdx_iff_getElem?] using hm, rfl⟩
  · rintro ⟨i, hi, rfl⟩
    exact ⟨c, i, by simpa [List.mem_zipIdx_iff_getElem?] using hi, rfl, rfl⟩

theorem find?_eq_none_iff {p : Pool} {c : Constant} :
    p.find? c = none ↔ ∀ id, (c, id) ∉ p.entries := by
  simp only [find?, Option.map_eq_none_iff, List.find?_eq_none]
  constructor
  · exact fun h id hm => h _ hm (Constant.same_iff.mpr rfl)
  · rintro h ⟨d, id⟩ hm hs
    obtain rfl := Constant.same_iff.mp hs
    exact h id hm

/-- Asking for the position of a constant. -/
theorem intern_ofConstants (cs : List Constant) (c : Constant) :
    (ofConstants cs.eraseDups).intern c =
      (position (cs ++ [c]) c, ofConstants (cs ++ [c]).eraseDups) := by
  unfold intern
  rw [position, eraseDups_concat]
  cases hf : (ofConstants cs.eraseDups).find? c with
  | some id =>
    obtain ⟨i, hi, rfl⟩ := mem_ofConstants.mp (mem_of_find? hf)
    have hc : c ∈ cs := List.mem_eraseDups.mp (List.mem_of_getElem? hi)
    obtain ⟨hlt, rfl⟩ := List.getElem?_eq_some_iff.mp hi
    rw [if_pos hc, (nodup_eraseDups cs).idxOf_getElem i hlt]
  | none =>
    have hc : c ∉ cs := fun hc => by
      obtain ⟨i, hi⟩ := List.getElem?_of_mem (List.mem_eraseDups.mpr hc)
      exact find?_eq_none_iff.mp hf _ (mem_ofConstants.mpr ⟨i, hi, rfl⟩)
    rw [if_neg hc, ofConstants_concat, List.idxOf_append_of_notMem (mt List.mem_eraseDups.mp hc),
      List.idxOf_cons_self, size_ofConstants, Nat.add_zero]

theorem sound_ofConstants {cs : List Constant} (h : cs.length ≤ 2 ^ 32) : (ofConstants cs).Sound := by
  rw [Sound, size_ofConstants]
  simp only [ofConstants, List.map_reverse, List.map_map]
  congr 1
  refine List.ext_getElem (by simp) fun i hi _ => ?_
  have hlt : i < 2 ^ 32 := by
    simp only [List.length_map, List.length_zipIdx] at hi
    omega
  simp [UInt32.toNat_ofNat_of_lt' hlt]

/-! ## The finished pool -/

theorem mapM_eq_ok {α β ε : Type} {f : α → Except ε β} {g : α → β} {xs : List α}
    (h : ∀ x ∈ xs, f x = .ok (g x)) : xs.mapM f = .ok (xs.map g) := by
  induction xs with
  | nil => rfl
  | cons x xs ih =>
    rw [List.mapM_cons, h x List.mem_cons_self, ih fun y hy => h y (List.mem_cons_of_mem _ hy)]
    rfl

theorem mapM_ne_ok {α β ε : Type} {f : α → Except ε β} {xs : List α} {x : α} {e : ε}
    (hx : x ∈ xs) (h : f x = .error e) (ys : List β) : xs.mapM f ≠ .ok ys := by
  obtain ⟨as, bs, rfl⟩ := List.append_of_mem hx
  rw [List.mapM_append, List.mapM_cons, h]
  cases as.mapM f <;> nofun

theorem size_slots (p : Pool) : p.slots.size = p.size := by
  unfold slots
  generalize hs : Array.replicate p.size (none : Option Constant) = start
  have hsize : start.size = p.size := by rw [← hs, Array.size_replicate]
  rw [← hsize]
  clear hs hsize
  induction p.entries generalizing start with
  | nil => rfl
  | cons e entries ih => rw [List.foldl_cons, ih, Array.size_setIfInBounds]

/-- **Constants whose positions fit are laid out in order.** -/
theorem layout_ofConstants {cs : List Constant} (h : cs.length ≤ 2 ^ 32) :
    (ofConstants cs).layout = .ok cs := by
  have hslots : (ofConstants cs).slots.toList = cs.map some := by
    refine List.ext_getElem? fun i => ?_
    rw [Array.getElem?_toList]
    by_cases hi : i < cs.length
    · have hm : (cs[i], UInt32.ofNat i) ∈ (ofConstants cs).entries :=
        mem_ofConstants.mpr ⟨i, List.getElem?_eq_getElem hi, rfl⟩
      have hx := (sound_ofConstants h).getElem?_slots hm
      rw [UInt32.toNat_ofNat_of_lt' (Nat.lt_of_lt_of_le hi h)] at hx
      rw [hx, List.getElem?_map, List.getElem?_eq_getElem hi, Option.map_some]
    · rw [Array.getElem?_eq_none (by rw [size_slots, size_ofConstants]; omega),
        List.getElem?_eq_none (by rw [List.length_map]; omega)]
  have hfst : (cs.map some).zipIdx.map (fun x => x.1.getD default) =
      ((cs.map some).zipIdx.map Prod.fst).map fun o => o.getD default := by
    rw [List.map_map]
    rfl
  unfold layout
  rw [hslots]
  refine (mapM_eq_ok (g := fun x => x.1.getD default) fun x hx => ?_).trans ?_
  · obtain ⟨c, -, hc⟩ := List.mem_map.mp (List.fst_mem_of_mem_zipIdx hx)
    obtain ⟨slot, index⟩ := x
    cases hc
    rfl
  · rw [hfst, List.zipIdx_map_fst, List.map_map]
    simp

/-- A position that does not fit is given to no constant. -/
theorem layout_ne_ok {p : Pool} (h : 2 ^ 32 < p.size) (cs : List Constant) : p.layout ≠ .ok cs := by
  have hnone : p.slots[2 ^ 32]? = some none := by
    have hstart : (Array.replicate p.size (none : Option Constant))[2 ^ 32]? = some none := by
      rw [Array.getElem?_replicate, if_pos h]
    unfold slots
    revert hstart
    generalize Array.replicate p.size (none : Option Constant) = start
    induction p.entries generalizing start with
    | nil => exact id
    | cons e entries ih =>
      intro hstart
      rw [List.foldl_cons]
      refine ih _ ?_
      rw [Array.getElem?_setIfInBounds_ne (Nat.ne_of_lt e.2.toNat_lt)]
      exact hstart
  refine mapM_ne_ok (x := (none, 2 ^ 32)) (e := .missingConstant (2 ^ 32)) ?_ rfl cs
  rw [List.mk_mem_zipIdx_iff_getElem?, Array.getElem?_toList]
  exact hnone

end Pool

end Dataflow
