import Dataflow.Pack.Basic

/-!
# Reading packed values

Reading accepts every form of the format, not only the shortest ones.

* `Pack.read`: the first value of a list of bytes and the bytes after it, for values nested less
  deep than a limit;
* `Pack.parse?`: the first value, the bytes after it ignored;
* `Pack.depth`: how deep a value is nested;
* `Pack.fields?`, `Pack.variant?`: records and variants.

A record may have fields that are not known. They are skipped, whatever they hold, unless they are
nested deeper than the record has room for.
-/

namespace Dataflow

namespace Pack

/-- The first `n` bytes and the others, if there are as many. -/
def takeBytes (n : Nat) (bs : List UInt8) : Option (List UInt8 × List UInt8) :=
  let parts := bs.splitAt n
  if parts.1.length = n then some parts else none

/-- An unsigned number of `width` bytes. -/
def takeNat (width : Nat) (bs : List UInt8) : Option (Nat × List UInt8) :=
  (takeBytes width bs).map fun (ds, rest) => (natOfBig ds, rest)

/-- A signed number of `width` bytes. -/
def takeInt (width : Nat) (bs : List UInt8) : Option (Int × List UInt8) :=
  (takeNat width bs).map fun (n, rest) => (Int.bmod n (Nat.pow 256 width), rest)

/-- As many values as asked for, each read by `one`. -/
def readMany {α : Type} (one : List UInt8 → Option (α × List UInt8)) :
    Nat → List UInt8 → Option (List α × List UInt8)
  | 0, bs => some ([], bs)
  | n + 1, bs => do
    let (a, bs) ← one bs
    let (as, bs) ← readMany one n bs
    return (a :: as, bs)

/-- A key and its value, each read by `one`. -/
def readEntry (one : List UInt8 → Option (Pack × List UInt8)) (bs : List UInt8) :
    Option ((Pack × Pack) × List UInt8) := do
  let (k, bs) ← one bs
  let (v, bs) ← one bs
  return ((k, v), bs)

/-- Bytes behind a length of `width` bytes. -/
def takeSized (width : Nat) (bs : List UInt8) : Option (List UInt8 × List UInt8) := do
  let (n, bs) ← takeNat width bs
  takeBytes n bs

/-- A tag and `n` bytes. -/
def takeExt (n : Nat) : List UInt8 → Option (Pack × List UInt8)
  | [] => none
  | tag :: bs => (takeBytes n bs).map fun (ds, rest) => (ext tag ds, rest)

/-- A value that is not an array or a map, from its first byte and the bytes after it. -/
def readFlat (head : Nat) (bs : List UInt8) : Option (Pack × List UInt8) :=
  if head < 0x80 then some (uint head, bs)
  else if 0xe0 ≤ head then some (sint (Int.bmod head 256), bs)
  else if 0xa0 ≤ head ∧ head < 0xc0 then (takeBytes (head - 0xa0) bs).map fun (ds, r) => (str ds, r)
  else
    match head with
    | 0xc0 => some (nil, bs)
    | 0xc2 => some (bool false, bs)
    | 0xc3 => some (bool true, bs)
    | 0xc4 => (takeSized 1 bs).map fun (ds, r) => (bin ds, r)
    | 0xc5 => (takeSized 2 bs).map fun (ds, r) => (bin ds, r)
    | 0xc6 => (takeSized 4 bs).map fun (ds, r) => (bin ds, r)
    | 0xc7 => do
      let (n, bs) ← takeNat 1 bs
      takeExt n bs
    | 0xc8 => do
      let (n, bs) ← takeNat 2 bs
      takeExt n bs
    | 0xc9 => do
      let (n, bs) ← takeNat 4 bs
      takeExt n bs
    | 0xca => (takeBytes 4 bs).map fun (ds, r) => (float ds, r)
    | 0xcb => (takeBytes 8 bs).map fun (ds, r) => (float ds, r)
    | 0xcc => (takeNat 1 bs).map fun (n, r) => (uint n, r)
    | 0xcd => (takeNat 2 bs).map fun (n, r) => (uint n, r)
    | 0xce => (takeNat 4 bs).map fun (n, r) => (uint n, r)
    | 0xcf => (takeNat 8 bs).map fun (n, r) => (uint n, r)
    | 0xd0 => (takeInt 1 bs).map fun (n, r) => (sint n, r)
    | 0xd1 => (takeInt 2 bs).map fun (n, r) => (sint n, r)
    | 0xd2 => (takeInt 4 bs).map fun (n, r) => (sint n, r)
    | 0xd3 => (takeInt 8 bs).map fun (n, r) => (sint n, r)
    | 0xd4 => takeExt 1 bs
    | 0xd5 => takeExt 2 bs
    | 0xd6 => takeExt 4 bs
    | 0xd7 => takeExt 8 bs
    | 0xd8 => takeExt 16 bs
    | 0xd9 => (takeSized 1 bs).map fun (ds, r) => (str ds, r)
    | 0xda => (takeSized 2 bs).map fun (ds, r) => (str ds, r)
    | 0xdb => (takeSized 4 bs).map fun (ds, r) => (str ds, r)
    | _ => none

/-- The length of an array that starts with this byte, and the bytes after it. -/
def arrayLength (head : Nat) (bs : List UInt8) : Option (Nat × List UInt8) :=
  if 0x90 ≤ head ∧ head < 0xa0 then some (head - 0x90, bs)
  else if head = 0xdc then takeNat 2 bs
  else if head = 0xdd then takeNat 4 bs
  else none

/-- The length of a map that starts with this byte, and the bytes after it. -/
def mapLength (head : Nat) (bs : List UInt8) : Option (Nat × List UInt8) :=
  if 0x80 ≤ head ∧ head < 0x90 then some (head - 0x80, bs)
  else if head = 0xde then takeNat 2 bs
  else if head = 0xdf then takeNat 4 bs
  else none

/-- The first value and the bytes after it. Arrays and maps are nested less deep than the limit. -/
def read : Nat → List UInt8 → Option (Pack × List UInt8)
  | 0, _ => none
  | _, [] => none
  | limit + 1, head :: bs =>
    match arrayLength head.toNat bs, mapLength head.toNat bs with
    | some (n, bs), _ => do
      let (items, bs) ← readMany (read limit) n bs
      return (array items, bs)
    | none, some (n, bs) => do
      let (entries, bs) ← readMany (readEntry (read limit)) n bs
      return (map entries, bs)
    | none, none => readFlat head.toNat bs

/-- How deep a record and what it holds can be nested. -/
def nestingLimit : Nat := 1023

/-- The first value of the bytes. A variant adds to the nesting of values without counting for it,
and its payload is a record, so values may be nested a little deeper than records. -/
def parse? (bs : List UInt8) : Option Pack := (read (nestingLimit + 3) bs).map (·.1)

/-! ## Nesting -/

mutual

/-- How many arrays, maps and tagged data are inside one another. -/
def depth : Pack → Nat
  | array items => 1 + depthOfItems items
  | map entries => 1 + depthOfEntries entries
  | ext _ _ => 1
  | nil | bool _ | uint _ | sint _ | float _ | str _ | bin _ => 0

/-- The greatest depth of the values of an array. -/
def depthOfItems : List Pack → Nat
  | [] => 0
  | p :: ps => max (depth p) (depthOfItems ps)

/-- The greatest depth of the keys and values of a map. -/
def depthOfEntries : List (Pack × Pack) → Nat
  | [] => 0
  | (k, v) :: es => max (max (depth k) (depth v)) (depthOfEntries es)

end

/-! ## Records and variants -/

/-- The integer a value stands for. -/
def toInt? : Pack → Option Int
  | uint n => some n
  | sint n => some n
  | _ => none

/-- The integer a value stands for, if it lies between the bounds. -/
def intWithin? (low high : Int) (p : Pack) : Option Int := do
  let n ← p.toInt?
  if low ≤ n ∧ n ≤ high then some n else none

/-- The position of a name among others: by its text, as text or data, or by its number. A number
past the end is the position of no name. -/
def position? (names : List String) : Pack → Option Nat
  | str bytes | bin bytes => some (names.findIdx fun n => utf8 n = bytes)
  | uint n => some n
  | _ => none

/-- The values of a map by field position; unknown fields are skipped if they are nested at most
`room` deep, repeated ones refused. -/
def collect (room : Nat) (names : List String) : List (Pack × Pack) → List (Option Pack) →
    Option (List (Option Pack))
  | [], got => some got
  | (k, v) :: es, got => do
    let i ← position? names k
    match got[i]? with
    | none => if v.depth ≤ room then collect room names es got else none
    | some none => collect room names es (got.set i (some v))
    | some (some _) => none

/-- The fields of a record in order: from a map by name or number, or from an array of exactly as
many values. The record and what it holds are nested at most `room` deep. -/
def fields? (room : Nat) (names : List String) : Pack → Option (List Pack)
  | array items => if items.length = names.length then some items else none
  | map entries => do
    let got ← collect (room - 1) names entries (names.map fun _ => none)
    got.mapM id
  | _ => none

/-- The position of a variant and its payload, if it has one. -/
def variant? (names : List String) : Pack → Option (Nat × Option Pack)
  | map [(k, v)] => (position? names k).map fun i => (i, some v)
  | map _ => none
  | p => (position? names p).map fun i => (i, none)

/-- The position of a variant without payload; nil can stand for the payload. -/
def unitVariant? (names : List String) (p : Pack) : Option Nat :=
  match p.variant? names with
  | some (i, none) => some i
  | some (i, some nil) => some i
  | _ => none

/-- The values of a list; empty data is an empty list. -/
def items? : Pack → Option (List Pack)
  | array items => some items
  | bin [] => some []
  | _ => none

/-- Bytes, as data or as a list of small numbers. -/
def bytes? : Pack → Option (List UInt8)
  | bin bytes => some bytes
  | array items => items.mapM fun p => (p.intWithin? 0 255).map fun n => UInt8.ofNat n.toNat
  | _ => none

/-- Exactly `n` bytes. Of data only the first `n` count. -/
def bytesOfSize? (n : Nat) (p : Pack) : Option (List UInt8) := do
  let bytes := match p with
    | bin bytes => bin (bytes.take n)
    | p => p
  let bytes ← bytes.bytes?
  if bytes.length = n then some bytes else none

end Pack

end Dataflow
