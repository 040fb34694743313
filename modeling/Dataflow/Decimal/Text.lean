import Dataflow.Decimal.Shortest

/-!
# Floats as text

* `FloatLayout`: where positional notation ends;
* `floatText`: the text of a float, which reads back as the same float.
-/

namespace Dataflow

/-- Positional notation is used while the decimal point stands at `lowest` to `highest` places after
the start of the digits. -/
structure FloatLayout where
  lowest : Int
  highest : Int

/-- Positional from `0.0001` up to `10 ^ 16`, exclusive. -/
def FloatLayout.standard : FloatLayout := ⟨-3, 16⟩

namespace FloatLayout

/-- Zeros. -/
def zeros (n : Nat) : String := String.ofList (List.replicate n '0')

/-- Digits with a point behind `point` places and a digit on either side of it. -/
def positional (ds : List Char) (point : Int) : String :=
  if point ≤ 0 then "0." ++ zeros (-point).toNat ++ String.ofList ds
  else
    let whole := ds.take point.toNat
    let fraction := ds.drop point.toNat
    String.ofList whole ++ zeros (point.toNat - ds.length) ++ "."
      ++ (if fraction.isEmpty then "0" else String.ofList fraction)

/-- One digit, the others behind a point if there are any, and the exponent. -/
def scientific (ds : List Char) (point : Int) : String :=
  String.ofList (ds.take 1) ++ (if ds.length ≤ 1 then "" else "." ++ String.ofList (ds.drop 1))
    ++ "e" ++ toString (point - 1)

/-- A positive decimal as text. -/
def write (l : FloatLayout) (d : Decimal) : String :=
  let ds := (toString d.digits).toList
  let point := (ds.length : Int) + d.exponent
  if l.lowest ≤ point ∧ point ≤ l.highest then positional ds point else scientific ds point

end FloatLayout

/-- The text of a float: the fewest digits that read back as the same float. -/
def floatText (x : Float) : String :=
  if x.isNaN then "NaN"
  else
    let sign := if signBit x then "-" else ""
    if x.isInf then sign ++ "inf"
    else if x == 0 then sign ++ "0.0"
    else sign ++ FloatLayout.standard.write (Binary.ofBits x.toBits).shortest

end Dataflow
