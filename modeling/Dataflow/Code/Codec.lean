import Dataflow.Code.Unit
import Dataflow.Pack.Read

/-!
# Units in binary form

A record is a map from field names to values. A variant without operands is its name, any other
variant a map from its name to its operands. The checksum is not part of the form.

* `Code.encode`: a unit as bytes;
* `Code.decode?`: a unit from bytes.
-/

namespace Dataflow

/-! ## Writing -/

/-- A record: its field names with their values. -/
def Pack.record (fields : List (String × Pack)) : Pack :=
  .map (fields.map fun (name, value) => (.ofText name, value))

/-- Bytes as a list of numbers. -/
def Pack.ofBytes (bytes : List UInt8) : Pack := .array (bytes.map fun b => .uint b.toNat)

/-- The name of a form in encoded form. -/
def Form.tag : Form → String
  | .member => "Normal"
  | .binary => "Infix"
  | .unary => "Prefix"

/-- A constant as a record. -/
def Constant.pack (c : Constant) : Pack :=
  .record [("kind", .ofText c.kind.name), ("bytes", .ofBytes c.bytes)]

/-- An instruction as a variant. -/
def Instruction.pack : Instruction → Pack
  | argument id => .record [("PushArgument", .ofInt id.toInt)]
  | call id => .record [("ValueFromCall", .ofInt id.toInt)]
  | constant id => .record [("ValueFromConstant", .uint id.toNat)]
  | field value name form =>
    .record [("ValueFromStructValue",
      .record [("value", .ofInt value.toInt), ("field", .uint name.toNat),
        ("form", .ofText form.tag)])]
  | enter params => .record [("PushFunction", .uint params.toNat)]
  | leave => .ofText "PopFunction"
  | copy id => .record [("ValueCopy", .ofInt id.toInt)]

/-! ## Reading -/

/-- The form with this name or number. -/
def Form.ofPack? (p : Pack) : Option Form :=
  match p.unitVariant? ["Normal", "Infix", "Prefix"] with
  | some 0 => some .member
  | some 1 => some .binary
  | some 2 => some .unary
  | _ => none

/-- The kind of constant with this name or number. -/
def Constant.Kind.ofPack? (p : Pack) : Option Constant.Kind :=
  match p.unitVariant? ["String", "Integer", "Float"] with
  | some 0 => some .string
  | some 1 => some .integer
  | some 2 => some .float
  | _ => none

/-- A constant from its record, with `room` for nesting. -/
def Constant.ofPack? (room : Nat) (p : Pack) : Option Constant := do
  match ← p.fields? room ["kind", "bytes"] with
  | [kind, bytes] => return ⟨← Kind.ofPack? kind, ← bytes.bytes?⟩
  | _ => none

/-- A value number. -/
def valueIdOf? (p : Pack) : Option ValueId :=
  (p.intWithin? (-0x80000000) 0x7fffffff).map Int32.ofInt

/-- A count or a position in a pool. -/
def wordOf? (p : Pack) : Option UInt32 :=
  (p.intWithin? 0 0xffffffff).map fun n => UInt32.ofNat n.toNat

/-- The names of the instructions, in order. -/
def Instruction.tags : List String :=
  ["PushArgument", "ValueFromCall", "ValueFromConstant", "ValueFromStructValue", "PushFunction",
    "PopFunction", "ValueCopy"]

/-- An instruction from its variant, with `room` for nesting. -/
def Instruction.ofPack? (room : Nat) (p : Pack) : Option Instruction := do
  match ← p.variant? tags with
  | (0, some v) => return .argument (← valueIdOf? v)
  | (1, some v) => return .call (← valueIdOf? v)
  | (2, some v) => return .constant (← wordOf? v)
  | (3, some v) =>
    match ← v.fields? room ["value", "field", "form"] with
    | [value, name, form] =>
      return .field (← valueIdOf? value) (← wordOf? name) (← Form.ofPack? form)
    | _ => none
  | (4, some v) => return .enter (← wordOf? v)
  | (5, none) => return .leave
  | (5, some .nil) => return .leave
  | (6, some v) => return .copy (← valueIdOf? v)
  | _ => none

namespace Code

/-- A unit as a record. -/
def pack (c : Code) : Pack :=
  .record [("constants", .array (c.constants.map Constant.pack)),
    ("instructions", .array (c.instructions.map Instruction.pack))]

/-- A unit from its record, with `room` for nesting; its source is not known. -/
def ofPack? (room : Nat) (p : Pack) : Option Code := do
  match ← p.fields? room ["constants", "instructions"] with
  | [constants, instructions] =>
    return ⟨.zero, ← (← constants.items?).mapM (Constant.ofPack? (room - 2)),
      ← (← instructions.items?).mapM (Instruction.ofPack? (room - 2))⟩
  | _ => none

/-- A unit as bytes. -/
def encode (c : Code) : List UInt8 := c.pack.encode

/-- The unit that the bytes start with. -/
def decode? (bytes : List UInt8) : Option Code := do
  ofPack? Pack.nestingLimit (← Pack.parse? bytes)

end Code

end Dataflow
