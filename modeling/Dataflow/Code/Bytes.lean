/-!
# Bytes

Numbers as bytes, lowest or highest byte first, and texts as their UTF-8 bytes.

* `littleEndian`, `natOfLittle`: lowest byte first;
* `bigEndian`, `natOfBig`: highest byte first;
* `utf8`, `textOf?`: texts;
* `sameBytes`: whether bytes are equal.
-/

namespace Dataflow

/-- The `width` low bytes of a number, lowest first. -/
def littleEndian : Nat → Nat → List UInt8
  | 0, _ => []
  | width + 1, n => UInt8.ofNat (n % 256) :: littleEndian width (n / 256)

/-- The number whose bytes, lowest first, are given. -/
def natOfLittle : List UInt8 → Nat
  | [] => 0
  | b :: bs => b.toNat + 256 * natOfLittle bs

/-- The `width` low bytes of a number, highest first. -/
def bigEndian (width n : Nat) : List UInt8 := (littleEndian width n).reverse

/-- The number whose bytes, highest first, are given. -/
def natOfBig (bs : List UInt8) : Nat := natOfLittle bs.reverse

/-- The UTF-8 bytes of a text. -/
def utf8 (s : String) : List UInt8 := s.toUTF8.toList

/-- The text with these UTF-8 bytes, if they are valid. -/
def textOf? (bs : List UInt8) : Option String := String.fromUTF8? ⟨bs.toArray⟩

/-- Whether two lists of bytes are equal. -/
def sameBytes : List UInt8 → List UInt8 → Bool
  | [], [] => true
  | a :: as, b :: bs => a == b && sameBytes as bs
  | _, _ => false

theorem sameBytes_iff : ∀ {as bs : List UInt8}, sameBytes as bs = true ↔ as = bs
  | [], [] => by simp [sameBytes]
  | [], _ :: _ => by simp [sameBytes]
  | _ :: _, [] => by simp [sameBytes]
  | a :: as, b :: bs => by
    simp only [sameBytes, Bool.and_eq_true, beq_iff_eq, List.cons.injEq]
    rw [sameBytes_iff]

/-- The value of a hexadecimal digit. -/
def hexValue? (c : Char) : Option Nat :=
  if '0' ≤ c ∧ c ≤ '9' then some (c.toNat - '0'.toNat)
  else if 'a' ≤ c ∧ c ≤ 'f' then some (c.toNat - 'a'.toNat + 10)
  else none

/-- The bytes that pairs of hexadecimal digits write. -/
def bytesOfHex? : List Char → Option (List UInt8)
  | [] => some []
  | a :: b :: cs => do
    let high ← hexValue? a
    let low ← hexValue? b
    return UInt8.ofNat (16 * high + low) :: (← bytesOfHex? cs)
  | [_] => none

end Dataflow
