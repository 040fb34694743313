import Dataflow.Code.Bytes

/-!
# Packed values

MessagePack: a self-describing binary format in which every value starts with a byte that gives its
type, and short values their length as well.

* `Pack`: the values of the format;
* `Pack.encode`: a value in its shortest form.
-/

namespace Dataflow

/-- A value of the format. Texts are kept as bytes, since they need not be valid. -/
inductive Pack where
  | nil
  | bool (b : Bool)
  /-- A number written in an unsigned form. -/
  | uint (n : Nat)
  /-- A number written in a signed form. -/
  | sint (n : Int)
  | float (bytes : List UInt8)
  | str (bytes : List UInt8)
  | bin (bytes : List UInt8)
  | array (items : List Pack)
  | map (entries : List (Pack × Pack))
  | ext (tag : UInt8) (bytes : List UInt8)
  deriving Inhabited

namespace Pack

/-- An integer: unsigned unless it is negative. -/
def ofInt (n : Int) : Pack := if 0 ≤ n then uint n.toNat else sint n

/-- A text. -/
def ofText (s : String) : Pack := str (utf8 s)

/-- An unsigned number in its shortest form. -/
def encodeNat (n : Nat) : List UInt8 :=
  if n < 0x80 then [UInt8.ofNat n]
  else if n < 0x100 then 0xcc :: bigEndian 1 n
  else if n < 0x10000 then 0xcd :: bigEndian 2 n
  else if n < 0x100000000 then 0xce :: bigEndian 4 n
  else 0xcf :: bigEndian 8 n

/-- The two's complement of a number in `width` bytes. -/
def signedBytes (width : Nat) (n : Int) : List UInt8 :=
  bigEndian width (n % (Nat.pow 256 width : Nat)).toNat

/-- A signed number in its shortest signed form. -/
def encodeInt (n : Int) : List UInt8 :=
  if -0x20 ≤ n ∧ n < 0 then signedBytes 1 n
  else if -0x80 ≤ n ∧ n < 0x80 then 0xd0 :: signedBytes 1 n
  else if -0x8000 ≤ n ∧ n < 0x8000 then 0xd1 :: signedBytes 2 n
  else if -0x80000000 ≤ n ∧ n < 0x80000000 then 0xd2 :: signedBytes 4 n
  else 0xd3 :: signedBytes 8 n

/-- The head of a text. -/
def textHead (n : Nat) : List UInt8 :=
  if n < 0x20 then [UInt8.ofNat (0xa0 + n)]
  else if n < 0x100 then 0xd9 :: bigEndian 1 n
  else if n < 0x10000 then 0xda :: bigEndian 2 n
  else 0xdb :: bigEndian 4 n

/-- The head of binary data. -/
def dataHead (n : Nat) : List UInt8 :=
  if n < 0x100 then 0xc4 :: bigEndian 1 n
  else if n < 0x10000 then 0xc5 :: bigEndian 2 n
  else 0xc6 :: bigEndian 4 n

/-- The head of an array. -/
def arrayHead (n : Nat) : List UInt8 :=
  if n < 0x10 then [UInt8.ofNat (0x90 + n)]
  else if n < 0x10000 then 0xdc :: bigEndian 2 n
  else 0xdd :: bigEndian 4 n

/-- The head of a map. -/
def mapHead (n : Nat) : List UInt8 :=
  if n < 0x10 then [UInt8.ofNat (0x80 + n)]
  else if n < 0x10000 then 0xde :: bigEndian 2 n
  else 0xdf :: bigEndian 4 n

mutual

/-- A value as bytes. -/
def encode : Pack → List UInt8
  | nil => [0xc0]
  | bool false => [0xc2]
  | bool true => [0xc3]
  | uint n => encodeNat n
  | sint n => encodeInt n
  | float bytes => (if bytes.length = 4 then 0xca else 0xcb) :: bytes
  | str bytes => textHead bytes.length ++ bytes
  | bin bytes => dataHead bytes.length ++ bytes
  | array items => arrayHead items.length ++ encodeItems items
  | map entries => mapHead entries.length ++ encodeEntries entries
  | ext tag bytes => 0xc7 :: bigEndian 1 bytes.length ++ tag :: bytes

/-- The values of an array one after the other. -/
def encodeItems : List Pack → List UInt8
  | [] => []
  | p :: ps => encode p ++ encodeItems ps

/-- The entries of a map one after the other, each key before its value. -/
def encodeEntries : List (Pack × Pack) → List UInt8
  | [] => []
  | (k, v) :: es => encode k ++ encode v ++ encodeEntries es

end

end Pack

end Dataflow
