import Dataflow.Compile.Pool
import Dataflow.Proofs.Code.Bytes
import Dataflow.Run.Machine

/-!
# What constant pools hold

Constants are given consecutive positions and keep them, so each of them stands at its position in
the finished unit, and constants of literals can be decoded.

* `Constant.value?_ofInt`, `value?_ofText`: decoding;
* `Pool.Sound`: positions are consecutive;
* **`Pool.Sound.getElem?_layout`**: every constant stands at its position.
-/

namespace Dataflow

namespace Constant

theorem word?_littleEndian (w : UInt64) : word? (littleEndian 8 w.toNat) = some w := by
  have hw : w.toNat % 256 ^ 8 = w.toNat := Nat.mod_eq_of_lt w.toNat_lt
  rw [word?, if_pos (length_littleEndian ..), natOfLittle_littleEndian, hw, UInt64.ofNat_toNat]

theorem value?_ofInt (n : Int64) : (ofInt n).value? = some (.int n) := by
  show ((word? (littleEndian 8 n.toUInt64.toNat)).map UInt64.toInt64).map Value.int = _
  rw [word?_littleEndian]
  rfl

theorem value?_ofFloat (x : Float) : (ofFloat x).value? = some (.float (Float.ofBits x.toBits)) := by
  show ((word? (littleEndian 8 x.toBits.toNat)).map Float.ofBits).map Value.float = _
  rw [word?_littleEndian]
  rfl

theorem value?_ofText (s : String) : (ofText s).value? = some (.str s) := by
  show (textOf? (utf8 s)).map Value.str = _
  rw [textOf?_utf8]
  rfl

end Constant

namespace Pool

/-- The positions of a pool are consecutive, the latest first. -/
def Sound (p : Pool) : Prop := p.entries.map (fun e => e.2.toNat) = (List.range p.size).reverse

theorem sound_empty : empty.Sound := rfl

/-- A pool later on: nothing that was there is lost. -/
def Le (p p' : Pool) : Prop := p.entries <:+ p'.entries

theorem Le.refl (p : Pool) : p.Le p := List.suffix_refl _

theorem Le.trans {p p' p'' : Pool} (h : p.Le p') (h' : p'.Le p'') : p.Le p'' :=
  List.IsSuffix.trans h h'

theorem mem_of_find? {p : Pool} {c : Constant} {id : ConstantId} (h : p.find? c = some id) :
    (c, id) ∈ p.entries := by
  unfold find? at h
  obtain ⟨e, he, hid⟩ := Option.map_eq_some_iff.mp h
  have hc : e.1 = c := by
    have := List.find?_some he
    exact Constant.same_iff.mp this
  have hmem := List.mem_of_find?_eq_some he
  rw [← hc, ← hid]
  exact hmem

/-- What giving a constant a position leaves behind. -/
structure Interned (p : Pool) (c : Constant) (id : ConstantId) (p' : Pool) : Prop where
  sound : p'.Sound
  mem : (c, id) ∈ p'.entries
  le : p.Le p'
  size_le : p'.size ≤ p.size + 1

theorem Sound.intern {p : Pool} (h : p.Sound) (hs : p.size < 2 ^ 32) (c : Constant) :
    Interned p c (p.intern c).1 (p.intern c).2 := by
  unfold Pool.intern
  cases hf : p.find? c with
  | some id => exact ⟨h, mem_of_find? hf, .refl p, Nat.le_succ _⟩
  | none =>
    refine ⟨?_, List.mem_cons_self, List.suffix_cons _ _, Nat.le_refl _⟩
    have hid : (UInt32.ofNat p.size).toNat = p.size := UInt32.toNat_ofNat_of_lt' hs
    show (UInt32.ofNat p.size).toNat :: p.entries.map (fun e => e.2.toNat)
      = (List.range (p.size + 1)).reverse
    rw [hid, List.range_succ, List.reverse_append, List.reverse_singleton, List.singleton_append, h]

/-! ## The finished pool -/

/-- Constants that are put at different positions are all there in the end. -/
theorem getElem?_foldl_set {entries : List (Constant × ConstantId)}
    (hn : (entries.map fun e => e.2.toNat).Nodup) (slots : Array (Option Constant))
    (hlt : ∀ e ∈ entries, e.2.toNat < slots.size) {c : Constant} {k : Nat}
    (h : (∃ id, (c, id) ∈ entries ∧ id.toNat = k) ∨
      slots[k]? = some (some c) ∧ ∀ e ∈ entries, e.2.toNat ≠ k) :
    (entries.foldl (fun slots e => slots.setIfInBounds e.2.toNat (some e.1)) slots)[k]?
      = some (some c) := by
  induction entries generalizing slots with
  | nil => simpa using h
  | cons e entries ih =>
    obtain ⟨hne, hn⟩ := List.nodup_cons.mp hn
    have hne' : ∀ e' ∈ entries, e'.2.toNat ≠ e.2.toNat := fun e' he' h' =>
      hne (List.mem_map.mpr ⟨e', he', h'⟩)
    rw [List.foldl_cons]
    refine ih hn _ (fun e' he' => ?_) ?_
    · rw [Array.size_setIfInBounds]
      exact hlt e' (List.mem_cons_of_mem _ he')
    · rcases h with ⟨id, hmem, rfl⟩ | ⟨hk, hout⟩
      · rcases List.mem_cons.mp hmem with rfl | hmem
        · refine .inr ⟨?_, hne'⟩
          rw [Array.getElem?_setIfInBounds_self_of_lt (hlt _ List.mem_cons_self)]
        · exact .inl ⟨id, hmem, rfl⟩
      · refine .inr ⟨?_, fun e' he' => hout e' (List.mem_cons_of_mem _ he')⟩
        rw [Array.getElem?_setIfInBounds_ne (hout e List.mem_cons_self)]
        exact hk

theorem getElem?_of_mapM_eq_ok {α β ε : Type} {f : α → Except ε β} {xs : List α} {ys : List β}
    (h : xs.mapM f = .ok ys) {i : Nat} {x : α} {y : β} (hx : xs[i]? = some x) (hy : f x = .ok y) :
    ys[i]? = some y := by
  induction xs generalizing ys i with
  | nil => simp at hx
  | cons a xs ih =>
    rw [List.mapM_cons] at h
    cases ha : f a with
    | error e =>
      rw [ha] at h
      cases h
    | ok b =>
      cases hxs : xs.mapM f with
      | error e =>
        rw [ha, hxs] at h
        cases h
      | ok bs =>
        rw [ha, hxs] at h
        cases h
        cases i with
        | zero =>
          obtain rfl : a = x := by simpa using hx
          rw [ha] at hy
          cases hy
          rfl
        | succ i => exact ih hxs hx

theorem Sound.getElem?_slots {p : Pool} (h : p.Sound) {c : Constant} {id : ConstantId}
    (hmem : (c, id) ∈ p.entries) : p.slots[id.toNat]? = some (some c) := by
  have hids : ∀ e ∈ p.entries, e.2.toNat < p.size := by
    intro e he
    have : e.2.toNat ∈ p.entries.map fun e => e.2.toNat := List.mem_map.mpr ⟨e, he, rfl⟩
    rw [h] at this
    simpa using this
  refine getElem?_foldl_set ?_ _ (fun e he => ?_) (.inl ⟨id, hmem, rfl⟩)
  · rw [h]
    exact List.nodup_reverse.mpr List.nodup_range
  · rw [Array.size_replicate]
    exact hids e he

/-- **Every constant stands at its position.** -/
theorem Sound.getElem?_layout {p : Pool} (h : p.Sound) {cs : List Constant}
    (hl : p.layout = .ok cs) {c : Constant} {id : ConstantId} (hmem : (c, id) ∈ p.entries) :
    cs[id.toNat]? = some c := by
  have hslot := h.getElem?_slots hmem
  refine getElem?_of_mapM_eq_ok hl (x := (some c, id.toNat)) ?_ rfl
  rw [List.getElem?_zipIdx, Array.getElem?_toList, hslot]
  simp

end Pool

end Dataflow
