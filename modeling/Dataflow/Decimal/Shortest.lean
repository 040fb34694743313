import Dataflow.Decimal.Binary

/-!
# The fewest digits

Of the decimals that read back as a given double, the one with the fewest digits is written, and of
several such decimals the nearest.

* `Decimal`: an integer times a power of ten;
* `Binary.shortest`: the decimal to write.

For a number of digits, only the two neighbours of the value on the grid of decimals with that many
digits need to be tried: if any point of the grid reads back, one of the neighbours does.
-/

namespace Dataflow

/-- The number `digits * 10 ^ exponent`. -/
structure Decimal where
  digits : Nat
  exponent : Int
  deriving DecidableEq, Repr

namespace Decimal

/-- Drops trailing zeros, at most `n` of them. -/
def strip : Nat → Decimal → Decimal
  | 0, d => d
  | n + 1, d => if d.digits % 10 = 0 then strip n ⟨d.digits / 10, d.exponent + 1⟩ else d

end Decimal

namespace Binary

/-- The reals that read back as a double, over a common denominator: the value, the ends of the
interval, and whether the ends belong to it. -/
structure Interval where
  low : Nat
  value : Nat
  high : Nat
  den : Nat
  closed : Bool

/-- The interval of a double: half way to its neighbours, less below a power of two, where the lower
neighbour is nearer. The ends round to the even mantissa. -/
def interval (b : Binary) : Interval :=
  let unit := Nat.pow 2 (b.exponent - 2).toNat
  let den := Nat.pow 2 (2 - b.exponent).toNat
  let below := if b.mantissa = hiddenBit then 1 else 2
  ⟨(4 * b.mantissa - below) * unit, 4 * b.mantissa * unit, (4 * b.mantissa + 2) * unit, den,
    b.mantissa % 2 == 0⟩

namespace Interval

/-- Whether the number `n * 10 ^ k` reads back. -/
def contains (i : Interval) (n : Nat) (k : Int) : Bool :=
  let point := n * Nat.pow 10 k.toNat * i.den
  let scale := Nat.pow 10 (-k).toNat
  if i.closed then i.low * scale ≤ point && point ≤ i.high * scale
  else i.low * scale < point && point < i.high * scale

/-- The least `k` with the value below `10 ^ k`, searched upward from `k` in at most `n` steps. -/
def magnitudeFrom (i : Interval) : Nat → Int → Int
  | 0, k => k
  | n + 1, k =>
    if i.value * Nat.pow 10 (-k).toNat < Nat.pow 10 k.toNat * i.den then k
    else i.magnitudeFrom n (k + 1)

/-- The decimal with `count` digits that reads back, if there is one: the nearer of the value's
neighbours, the upper one on a tie. -/
def withDigits (i : Interval) (magnitude : Int) (count : Nat) : Option Decimal :=
  let k := magnitude - count
  let num := i.value * Nat.pow 10 (-k).toNat
  let den := i.den * Nat.pow 10 k.toNat
  let down := num / den
  let up := down + 1
  match i.contains down k, i.contains up k with
  | true, true => if 2 * (num - down * den) < den then some ⟨down, k⟩ else some ⟨up, k⟩
  | true, false => some ⟨down, k⟩
  | false, true => some ⟨up, k⟩
  | false, false => none

end Interval

/-- A power of ten that is not above the value, a little too small rather than too large. -/
def magnitudeBelow (b : Binary) : Int := ((b.mantissa.log2 : Int) + b.exponent) * 30103 / 100000 - 1

/-- The shortest decimal that reads back as the double; seventeen digits always do. -/
def shortest (b : Binary) : Decimal :=
  let i := b.interval
  let magnitude := i.magnitudeFrom 8 b.magnitudeBelow
  let found := (List.range 17).findSome? fun n => i.withDigits magnitude (n + 1)
  (found.getD ⟨0, 0⟩).strip 20

end Binary

end Dataflow
