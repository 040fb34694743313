/-!
# Doubles as exact numbers

A finite double is an integer times a power of two; that form is read off its bits.

* `Binary`: such a number, without its sign;
* `Binary.ofBits`: the magnitude of a finite double;
* `Binary.rem`: the exact remainder of a division.
-/

namespace Dataflow

/-- The number `mantissa * 2 ^ exponent`. -/
structure Binary where
  mantissa : Nat
  exponent : Int
  deriving DecidableEq, Repr

namespace Binary

/-- The leading bit of a mantissa, which most doubles leave out. -/
def hiddenBit : Nat := 0x10000000000000

/-- The magnitude of the finite double with these bits. -/
def ofBits (bits : UInt64) : Binary :=
  let fraction : Nat := bits.toNat % hiddenBit
  let field : Nat := bits.toNat / hiddenBit % 2048
  if field = 0 then ⟨fraction, -1074⟩ else ⟨fraction + hiddenBit, (field : Int) - 1075⟩

/-- The mantissa when the exponent is lowered to `e`. -/
def mantissaAt (b : Binary) (e : Int) : Nat := b.mantissa * Nat.pow 2 (b.exponent - e).toNat

/-- What is left of `a` after taking `b` out of it as often as possible. -/
def rem (a b : Binary) : Binary :=
  let e := min a.exponent b.exponent
  ⟨a.mantissaAt e % b.mantissaAt e, e⟩

/-- The number as a double; exact for a mantissa below `2 ^ 53` and an exponent of a double. -/
def toFloat (b : Binary) : Float := (Float.ofNat b.mantissa).scaleB b.exponent

end Binary

/-- Whether the sign bit is set. -/
def signBit (x : Float) : Bool := x.toBits.toNat / 0x8000000000000000 == 1

/-- The magnitude of `x` with the sign of `y`. -/
def withSignOf (y x : Float) : Float := if signBit y then -x.abs else x.abs

/-- The exact remainder `x - n * y` with `n` the quotient rounded toward zero; it has the sign of
`x`. -/
def floatRem (x y : Float) : Float :=
  if x.isNaN || y.isNaN || x.isInf || y == 0 then 0.0 / 0.0
  else if y.isInf then x
  else withSignOf x ((Binary.ofBits x.toBits).rem (Binary.ofBits y.toBits)).toFloat

end Dataflow
