import Dataflow.Proofs.Graph.Build
import Dataflow.Run.Scope

/-!
# The numbers of values

Numbers of values are added with wrap-around. As long as the numbers of a level fit, the value at
position `n` of the level has the number `first + n`, and an activation keeps it at offset `n`.

* `Graph.Fits`: the numbers of a level do not wrap around;
* `Graph.slot`: the number at a position;
* `Graph.offset?_slot`: where an activation of the level keeps it.
-/

namespace Dataflow

theorem toInt_add_ofNat {first : ValueId} {n : Nat} (h : first.toInt + n < 2 ^ 31) :
    (first + Int32.ofNat n).toInt = first.toInt + n := by
  have hlo := first.le_toInt
  rw [Int32.toInt_add, Int32.toInt_ofNat', Int32.size]
  rw [Int.add_bmod_bmod]
  exact Int.bmod_eq_of_le (by omega) (by omega)

theorem add_ofNat_inj {first : ValueId} {n k : Nat} (hn : first.toInt + n < 2 ^ 31)
    (hk : first.toInt + k < 2 ^ 31) (h : first + Int32.ofNat n = first + Int32.ofNat k) : n = k := by
  have := congrArg Int32.toInt h
  rw [toInt_add_ofNat hn, toInt_add_ofNat hk] at this
  omega

namespace Graph

/-- The numbers of a level do not wrap around. -/
def Fits (g : Graph) : Prop := g.first.toInt + g.slotCount ≤ 2 ^ 31

/-- The number at a position: parameters come first, then blocks. -/
def slot (g : Graph) (n : Nat) : ValueId := g.first + Int32.ofNat n

theorem base_add (g : Graph) (i : Nat) : g.base + Int32.ofNat i = g.slot (g.params.toNat + i) := by
  have hp : g.params.toInt32 = Int32.ofNat g.params.toNat := by
    rw [← UInt32.toInt32_ofNat', UInt32.ofNat_toNat]
  rw [Level.base, slot, hp, Int32.add_assoc, ← Int32.ofNat_add]

theorem base_eq (g : Graph) : g.base = g.slot g.params.toNat := by
  have h := g.base_add 0
  rwa [show Int32.ofNat 0 = 0 from rfl, Int32.add_zero] at h

variable {g : Graph}

theorem Fits.toInt_slot (h : g.Fits) {n : Nat} (hn : n < g.slotCount) :
    (g.slot n).toInt = g.first.toInt + n :=
  toInt_add_ofNat (by unfold Fits at h; omega)

theorem Fits.slot_inj (h : g.Fits) {n k : Nat} (hn : n < g.slotCount) (hk : k < g.slotCount)
    (he : g.slot n = g.slot k) : n = k :=
  add_ofNat_inj (by unfold Fits at h; omega) (by unfold Fits at h; omega) he

/-- The block that makes a value determines its number. -/
theorem Makes.eq {id : ValueId} {j : Nat} (h : g.Makes id j) : id = g.slot (g.params.toNat + j) := by
  rw [← base_add]
  have hd : id - g.base = Int32.ofNat j := by
    rw [← Int32.ofInt_toInt (id - g.base), h.2.2]
    rfl
  rw [← hd, Int32.add_comm, Int32.sub_add_cancel]

/-- Parameters have the first numbers. -/
theorem Fits.param (h : g.Fits) (hne : g.blocks ≠ []) {id : ValueId} (hf : g.first ≤ id)
    (hb : id < g.base) : ∃ n < g.params.toNat, id = g.slot n := by
  have hlen : 0 < g.blocks.length := List.length_pos_iff.mpr hne
  have hbase : g.base.toInt = g.first.toInt + g.params.toNat := by
    rw [base_eq]
    exact h.toInt_slot (by unfold Level.slotCount; omega)
  rw [Int32.le_iff_toInt_le] at hf
  rw [Int32.lt_iff_toInt_lt, hbase] at hb
  refine ⟨(id.toInt - g.first.toInt).toNat, by omega, Int32.toInt.inj ?_⟩
  rw [h.toInt_slot (by unfold Level.slotCount; omega)]
  omega

/-- An activation of a level keeps the value at a position at that offset. -/
theorem Fits.offset?_slot (h : g.Fits) {a : Activation} (hf : a.first = g.first)
    (hs : a.slots.size = g.slotCount) {n : Nat} (hn : n < g.slotCount) :
    a.offset? (g.slot n) = some n := by
  unfold Activation.offset?
  dsimp only
  rw [h.toInt_slot hn, hf, hs, if_pos (by omega)]
  congr 1
  omega

end Graph

end Dataflow
