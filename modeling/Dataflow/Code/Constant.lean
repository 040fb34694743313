import Dataflow.Code.Bytes
import Dataflow.Decimal.Text
import Dataflow.Text.Quoted

/-!
# Constants

A constant is a kind and bytes. Two constants are the same if both agree, so floats are told apart
by their bits and never by their value.

* `Constant.ofInt`, `ofFloat`, `ofText`: the constants of literals;
* `Constant.toInt?`, `toFloat?`, `toText?`: what a constant stands for, if its bytes have the form
  that its kind asks for;
* `Constant.listing`: how listings show it.
-/

namespace Dataflow

/-- The kinds of constants. -/
inductive Constant.Kind where
  | string
  | integer
  | float
  deriving DecidableEq, Repr, Inhabited

/-- The name of a kind in encoded form. -/
def Constant.Kind.name : Constant.Kind → String
  | .string => "String"
  | .integer => "Integer"
  | .float => "Float"

/-- An entry of a constant pool. -/
structure Constant where
  kind : Constant.Kind
  bytes : List UInt8
  deriving DecidableEq, Repr, Inhabited

namespace Constant

/-- Whether two constants are equal. -/
def same (a b : Constant) : Bool := sameBytes a.bytes b.bytes && a.kind == b.kind

theorem same_iff {a b : Constant} : a.same b = true ↔ a = b := by
  obtain ⟨ka, as⟩ := a
  obtain ⟨kb, bs⟩ := b
  simp only [same, Bool.and_eq_true, beq_iff_eq, mk.injEq]
  rw [sameBytes_iff, and_comm]

/-- An integer: its eight bytes, lowest first. -/
def ofInt (n : Int64) : Constant := ⟨.integer, littleEndian 8 n.toUInt64.toNat⟩

/-- The float with these bits: their eight bytes, lowest first. -/
def ofFloatBits (bits : UInt64) : Constant := ⟨.float, littleEndian 8 bits.toNat⟩

/-- A float: the eight bytes of its bits, lowest first. -/
def ofFloat (x : Float) : Constant := ofFloatBits x.toBits

/-- A text: its UTF-8 bytes. -/
def ofText (s : String) : Constant := ⟨.string, utf8 s⟩

/-- Eight bytes as a word. -/
def word? (bytes : List UInt8) : Option UInt64 :=
  if bytes.length = 8 then some (UInt64.ofNat (natOfLittle bytes)) else none

/-- The integer a constant stands for. -/
def toInt? (c : Constant) : Option Int64 :=
  match c.kind with
  | .integer => (word? c.bytes).map UInt64.toInt64
  | _ => none

/-- The float a constant stands for. -/
def toFloat? (c : Constant) : Option Float :=
  match c.kind with
  | .float => (word? c.bytes).map Float.ofBits
  | _ => none

/-- The text a constant stands for. -/
def toText? (c : Constant) : Option String :=
  match c.kind with
  | .string => textOf? c.bytes
  | _ => none

/-- A constant as listings show it; bytes of the wrong form are shown as they are. -/
def listing (c : Constant) : String :=
  match c.kind with
  | .integer =>
    match c.toInt? with
    | some n => toString n.toInt
    | none => "<bad integer " ++ byteList c.bytes ++ ">"
  | .float =>
    match c.toFloat? with
    | some x => floatText x
    | none => "<bad float " ++ byteList c.bytes ++ ">"
  | .string =>
    match c.toText? with
    | some s => quoted s
    | none => "<bad string " ++ byteList c.bytes ++ ">"

end Constant

end Dataflow
