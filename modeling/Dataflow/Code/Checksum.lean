import Dataflow.Digest.Sha256
import Dataflow.Text.Quoted

/-!
# Checksums

The checksum of a source text is the first half of its SHA-256 digest.

* `Checksum.ofSource`: the checksum of a text;
* `Checksum.hex`: its 32 hexadecimal digits.
-/

namespace Dataflow

/-- Sixteen bytes that stand for a source text. -/
structure Checksum where
  bytes : List UInt8
  deriving DecidableEq, Repr, Inhabited

namespace Checksum

/-- How many bytes a checksum has. -/
def size : Nat := 16

/-- The checksum of a unit whose source is not known. -/
def zero : Checksum := ⟨List.replicate size 0⟩

/-- The checksum of a source text. -/
def ofSource (source : String) : Checksum := ⟨(Sha256.digest (utf8 source)).take size⟩

/-- The bytes in hexadecimal. -/
def hex (c : Checksum) : String := hexText c.bytes

/-- A checksum as listings show it. -/
def listing (c : Checksum) : String := "Checksum(" ++ c.hex ++ ")"

end Checksum

end Dataflow
