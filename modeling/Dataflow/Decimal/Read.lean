import Dataflow.Decimal.Shortest

/-!
# Floats from text

* `Decimal.natOfDigits`: the number that decimal digits write;
* `Decimal.toFloat`: the double nearest to a decimal;
* `Decimal.ofText`: the decimal of an unsigned float literal;
* `floatBits?`, `float?`: the float that any text writes, with a sign or by name.
-/

namespace Dataflow

namespace Decimal

/-- The value of a decimal digit. -/
def digitValue (c : Char) : Nat := c.toNat - '0'.toNat

/-- The number that a string of digits writes. -/
def natOfDigits (cs : List Char) : Nat := cs.foldl (fun n c => 10 * n + digitValue c) 0

/-- Whether a character is a digit. -/
def isDigit (c : Char) : Bool := '0' ≤ c && c ≤ '9'

/-- How many digits a number has. -/
def width (n : Nat) : Nat := (toString n).length

/-- The double nearest to a decimal. Beyond the range of doubles it is infinite or zero. -/
def toFloat (d : Decimal) : Float :=
  if d.digits = 0 then 0
  else
    let magnitude := (width d.digits : Int) + d.exponent
    if 400 < magnitude then 1.0 / 0.0
    else if magnitude < -400 then 0
    else Float.ofScientific d.digits (d.exponent < 0) d.exponent.natAbs

/-- The exponent behind its mark, if any. -/
def exponentOf : List Char → Int
  | _ :: '-' :: cs => -(natOfDigits cs : Int)
  | _ :: '+' :: cs => natOfDigits cs
  | _ :: cs => natOfDigits cs
  | [] => 0

/-- The decimal that digits, perhaps a fraction and perhaps an exponent write. -/
def ofText (cs : List Char) : Decimal :=
  let whole := cs.takeWhile isDigit
  let rest := cs.dropWhile isDigit
  let fraction := match rest with
    | '.' :: more => more.takeWhile isDigit
    | _ => []
  let tail := match rest with
    | '.' :: more => more.dropWhile isDigit
    | _ => rest
  ⟨natOfDigits (whole ++ fraction), exponentOf tail - fraction.length⟩

/-- The double that an unsigned float literal writes. -/
def floatOfText (cs : List Char) : Float := (ofText cs).toFloat

end Decimal

/-! ## Floats with a sign, or by name -/

namespace Decimal

/-- Whether characters are digits, at least one of them, perhaps with a sign before them. -/
def isSigned : List Char → Bool
  | '+' :: cs | '-' :: cs => !cs.isEmpty && cs.all isDigit
  | cs => !cs.isEmpty && cs.all isDigit

/-- Whether characters are an exponent behind its mark, or nothing. -/
def isExponent : List Char → Bool
  | [] => true
  | c :: cs => (c = 'e' || c = 'E') && isSigned cs

/-- Whether characters write an unsigned float: digits with perhaps a point among them, then
perhaps an exponent. -/
def isNumeral (cs : List Char) : Bool :=
  let whole := cs.takeWhile isDigit
  match cs.dropWhile isDigit with
  | '.' :: more =>
    let fraction := more.takeWhile isDigit
    whole ++ fraction ≠ [] && isExponent (more.dropWhile isDigit)
  | rest => whole ≠ [] && isExponent rest

end Decimal

/-- The bits of positive infinity. -/
def infinityBits : UInt64 := 0x7ff0000000000000

/-- The bits of what is not a number. -/
def nanBits : UInt64 := 0x7ff8000000000000

/-- The bits of a negative zero. -/
def signBits : UInt64 := 0x8000000000000000

/-- The bits of the float that a text without a sign writes, by name in any case or by digits. -/
def magnitudeBits? (cs : List Char) : Option UInt64 :=
  let word := String.ofList (cs.map Char.toLower)
  if word = "nan" then some nanBits
  else if word = "inf" || word = "infinity" then some infinityBits
  else if Decimal.isNumeral cs then some (Decimal.floatOfText cs).toBits
  else none

/-- The bits of the float that a text writes. Bits keep what the value does not show, the sign of
what is not a number. -/
def floatBits? (s : String) : Option UInt64 :=
  match s.toList with
  | '-' :: cs => (magnitudeBits? cs).map (· ||| signBits)
  | '+' :: cs => magnitudeBits? cs
  | cs => magnitudeBits? cs

/-- The float that a text writes. -/
def float? (s : String) : Option Float := (floatBits? s).map Float.ofBits

end Dataflow
