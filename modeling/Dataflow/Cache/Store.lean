import Dataflow.Cache.Files
import Dataflow.Code.Codec

/-!
# The cache of compiled units

A folder with one file per source text, named for the checksum of the text. The file records the
checksum beside the unit, so a file that has been moved is not taken for another one's.

* `Cache.load`: the unit that was stored for a checksum;
* `Cache.store`: stores a unit under its checksum.
-/

namespace Dataflow

/-- A folder of compiled units. -/
structure Cache where
  folder : String
  deriving DecidableEq, Repr, Inhabited

/-- Why the cache fails. -/
inductive CacheError where
  | files (path : String) (e : FileError)
  /-- The file is not a record of a unit. -/
  | corrupt (path : String)
  deriving DecidableEq, Repr, Inhabited

/-- The wording of an error. -/
def CacheError.message : CacheError → String
  | files path e => s!"cache I/O error at {path}: {e.message}"
  | corrupt path => s!"corrupt cache entry at {path}"

/-- A checksum from its bytes. -/
def Checksum.ofPack? (p : Pack) : Option Checksum := (p.bytesOfSize? size).map Checksum.mk

/-- A unit beside its checksum. -/
def Code.toRecord (c : Code) : Pack :=
  .record [("checksum", .ofBytes c.checksum.bytes), ("bytecode", c.pack)]

/-- A unit from the record of it and its checksum, with `room` for nesting. -/
def Code.ofRecord? (room : Nat) (p : Pack) : Option Code := do
  match ← p.fields? room ["checksum", "bytecode"] with
  | [checksum, code] =>
    return (← ofPack? (room - 1) code).withChecksum (← Checksum.ofPack? checksum)
  | _ => none

namespace Cache

/-- The path of the unit with a checksum. -/
def pathOf (c : Cache) (checksum : Checksum) : String := joinPath c.folder (checksum.hex ++ ".wfc")

/-- The unit stored under a checksum. A record of another checksum counts as none. -/
def load (c : Cache) (fs : Files) (checksum : Checksum) : Except CacheError (Option Code) :=
  let path := c.pathOf checksum
  match fs.read path with
  | .error .missing => .ok none
  | .error e => .error (.files path e)
  | .ok bytes =>
    match (Pack.parse? bytes).bind (Code.ofRecord? Pack.nestingLimit) with
    | none => .error (.corrupt path)
    | some code => .ok (if code.checksum = checksum then some code else none)

/-- Stores a unit under its checksum. -/
def store (c : Cache) (fs : Files) (code : Code) : Except CacheError Files :=
  match fs.makeFolders c.folder with
  | .error e => .error (.files c.folder e)
  | .ok fs =>
    let path := c.pathOf code.checksum
    match fs.write path code.toRecord.encode with
    | .error e => .error (.files path e)
    | .ok fs => .ok fs

end Cache

end Dataflow
