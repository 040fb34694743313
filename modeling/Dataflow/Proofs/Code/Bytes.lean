import Mathlib
import Dataflow.Code.Bytes

/-!
# Numbers and texts as bytes

What is written as bytes can be read back: a number from as many bytes as it needs, whichever of
them comes first, and a text from its UTF-8 bytes.

* `natOfLittle_littleEndian`, `natOfBig_bigEndian`: numbers;
* `utf8_inj`, `textOf?_utf8`: texts.
-/

namespace Dataflow

/-! ## Numbers -/

@[simp]
theorem length_littleEndian (width n : Nat) : (littleEndian width n).length = width := by
  induction width generalizing n with
  | zero => rfl
  | succ width ih => simp [littleEndian, ih]

/-- Reading as many low bytes of a number as were written. -/
theorem natOfLittle_littleEndian (width n : Nat) :
    natOfLittle (littleEndian width n) = n % 256 ^ width := by
  induction width generalizing n with
  | zero => simp [littleEndian, natOfLittle, Nat.mod_one]
  | succ width ih =>
    have hb : (UInt8.ofNat (n % 256)).toNat = n % 256 := by
      rw [UInt8.toNat_ofNat']
      omega
    rw [littleEndian, natOfLittle, hb, ih, Nat.pow_succ', Nat.mod_mul]

@[simp]
theorem length_bigEndian (width n : Nat) : (bigEndian width n).length = width := by
  simp [bigEndian]

theorem natOfBig_bigEndian {width n : Nat} (h : n < 256 ^ width) :
    natOfBig (bigEndian width n) = n := by
  rw [natOfBig, bigEndian, List.reverse_reverse, natOfLittle_littleEndian, Nat.mod_eq_of_lt h]

/-! ## Texts -/

theorem toList_loop (bs : ByteArray) (i : Nat) (taken : List UInt8) :
    ByteArray.toList.loop bs i taken = taken.reverse ++ bs.data.toList.drop i := by
  fun_induction ByteArray.toList.loop bs i taken with
  | case1 i taken h ih =>
    have hi : i < bs.data.toList.length := by simpa using h
    rw [ih, List.drop_eq_getElem_cons hi]
    simp [ByteArray.get!, h]
  | case2 i taken h =>
    rw [List.drop_eq_nil_of_le (by simpa using h)]
    simp

theorem utf8_eq (s : String) : utf8 s = s.toByteArray.data.toList := toList_loop _ 0 []

/-- Texts with the same bytes are the same. -/
theorem utf8_inj {s t : String} : utf8 s = utf8 t ↔ s = t := by
  refine ⟨fun h => ?_, fun h => by rw [h]⟩
  rw [utf8_eq, utf8_eq, Array.toList_inj] at h
  exact String.toByteArray_inj.mp (ByteArray.ext h)

/-- A text is read back from its bytes. -/
theorem textOf?_utf8 (s : String) : textOf? (utf8 s) = some s := by
  have hb : (⟨(utf8 s).toArray⟩ : ByteArray) = s.toByteArray := by
    rw [utf8_eq]
  rw [textOf?, hb, String.fromUTF8?, dif_pos s.isValidUTF8]
  rfl

end Dataflow
