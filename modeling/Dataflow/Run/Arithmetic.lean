import Dataflow.Decimal.Binary
import Dataflow.Run.Script

/-!
# Arithmetic

Integers have 64 bits and a sign; an operation whose result does not fit fails. An integer that
meets a float becomes one.

* `checked`: an integer, if it fits;
* `Number`: two operands of one type;
* `intPow`: powers of integers.
-/

namespace Dataflow

/-- The least integer of the language. -/
def minInt : Int := -0x8000000000000000

/-- The greatest integer of the language. -/
def maxInt : Int := 0x7fffffffffffffff

/-- The integer, or an overflow in the operation. -/
def checked (operation : String) (n : Int) : Except RunError Value :=
  if minInt ≤ n ∧ n ≤ maxInt then .ok (.int (Int64.ofInt n)) else .error (.overflow operation)

/-- The quotient of integers, toward zero. -/
def intDiv (a b : Int64) : Except RunError Value :=
  if b = 0 then .error .divisionByZero else checked "/" (a.toInt.tdiv b.toInt)

/-- The remainder of integers, with the sign of the dividend. It overflows where the quotient
does. -/
def intRem (a b : Int64) : Except RunError Value :=
  if b = 0 then .error .divisionByZero
  else if a.toInt = minInt ∧ b.toInt = -1 then .error (.overflow "%")
  else checked "%" (a.toInt.tmod b.toInt)

/-- The largest exponent of a power of integers. -/
def maxExponent : Int := 0xffffffff

/-- The power of integers with an exponent that is not negative. Past an exponent of 63 only the
powers of 0, 1 and -1 fit. -/
def intPow (a b : Int64) : Except RunError Value :=
  if maxExponent < b.toInt then .error (.overflow "pow")
  else if 63 < b.toInt then
    if a = 0 then checked "pow" 0
    else if a = 1 then checked "pow" 1
    else if a = -1 then checked "pow" (if b.toInt % 2 = 0 then 1 else -1)
    else .error (.overflow "pow")
  else checked "pow" (Int.pow a.toInt b.toInt.toNat)

/-- The quotient of floats. -/
def floatDiv (x y : Float) : Except RunError Value :=
  if y == 0 then .error .divisionByZero else .ok (.float (x / y))

/-- The remainder of floats, with the sign of the dividend. -/
def floatMod (x y : Float) : Except RunError Value :=
  if y == 0 then .error .divisionByZero else .ok (.float (floatRem x y))

/-- The smaller of two floats, the second if neither is; a number rather than none. -/
def floatMin (x y : Float) : Float := if x < y || y.isNaN then x else y

/-- The larger of two floats, the second if neither is; a number rather than none. -/
def floatMax (x y : Float) : Float := if y < x || y.isNaN then x else y

/-- Two operands: integers, or floats if one of them is. -/
inductive Operands where
  | ints (a b : Int64)
  | floats (x y : Float)

/-- Two operands, the value a method belongs to and its argument. -/
def operands (name : String) : Value → Value → Except RunError Operands
  | .int a, .int b => .ok (.ints a b)
  | .int a, .float y => .ok (.floats a.toFloat y)
  | .float x, .int b => .ok (.floats x b.toFloat)
  | .float x, .float y => .ok (.floats x y)
  | .int _, other => .error (.wrongKind name 0 .number other.type)
  | .float _, other => .error (.wrongKind name 0 .number other.type)
  | other, _ => .error (.wrongKind name 0 .number other.type)

/-- The value of a number as a float. -/
def Value.asFloat : Value → Float
  | .int n => n.toFloat
  | .float x => x
  | _ => 0.0 / 0.0

end Dataflow
