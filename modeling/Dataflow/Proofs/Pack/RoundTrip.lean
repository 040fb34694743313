import Dataflow.Proofs.Pack.Streams

/-!
# Values that have been written

A value in its shortest form is read back, and reading stops right behind it, as long as its numbers
and lengths are small enough for the format.

* `Pack.Writable`: values that the format can express;
* **`Pack.read_encode`**: they are read back;
* `Pack.parse?_encode`, `Pack.parse?_eq_none`: from all of their bytes, and not from less.
-/

namespace Dataflow

namespace Pack

/-! ## Numbers -/

theorem takeNat_bigEndian {width n : Nat} (h : n < 256 ^ width) (rest : List UInt8) :
    takeNat width (bigEndian width n ++ rest) = some (n, rest) := by
  rw [takeNat, takeBytes_eq_some.mpr ⟨length_bigEndian width n, rfl⟩]
  simp only [Option.map_some, natOfBig_bigEndian h]

theorem takeInt_signedBytes {width : Nat} {n : Int} (hlo : -(256 ^ width / 2 : Nat) ≤ n)
    (hhi : n < (256 ^ width / 2 : Nat)) (rest : List UInt8) :
    takeInt width (signedBytes width n ++ rest) = some (n, rest) := by
  have hpos : 0 < 256 ^ width := Nat.pow_pos (by decide)
  have hnn : 0 ≤ n % (256 ^ width : Nat) := Int.emod_nonneg _ (by omega)
  have hlt : n % (256 ^ width : Nat) < (256 ^ width : Nat) := Int.emod_lt_of_pos _ (by omega)
  have hmod : Int.bmod ((n % (256 ^ width : Nat)).toNat : Int) (256 ^ width) = n := by
    rw [Int.toNat_of_nonneg hnn, Int.emod_bmod]
    exact Int.bmod_eq_of_le (by omega) (by omega)
  rw [takeInt, signedBytes, Nat.pow_eq, takeNat_bigEndian (by omega)]
  simp only [Option.map_some, hmod]

theorem takeSized_bigEndian {width : Nat} {bs : List UInt8} (h : bs.length < 256 ^ width)
    (rest : List UInt8) :
    takeSized width (bigEndian width bs.length ++ (bs ++ rest)) = some (bs, rest) := by
  rw [takeSized, takeNat_bigEndian h]
  exact takeBytes_eq_some.mpr ⟨rfl, rfl⟩

theorem toNat_ofNat {n : Nat} (h : n < 256) : (UInt8.ofNat n).toNat = n := by
  rw [UInt8.toNat_ofNat']
  omega

/-- The single byte of a small negative number. -/
theorem signedBytes_one {n : Int} (hlo : -0x20 ≤ n) (hhi : n < 0) :
    signedBytes 1 n = [UInt8.ofNat (n + 256).toNat] := by
  have hm : n % (Nat.pow 256 1 : Nat) = n + 256 := by
    rw [show ((Nat.pow 256 1 : Nat) : Int) = 256 from rfl]
    omega
  have hb : (n + 256).toNat % 256 = (n + 256).toNat := by omega
  rw [signedBytes, hm, bigEndian, littleEndian, littleEndian, hb]
  rfl

/-! ## Short forms, whose first byte holds the value or its length -/

/-- The first byte of a value that is neither an array nor a map. -/
theorem read_byte {n : Nat} (h : n < 256) (ha : ¬ IsArrayHead n) (hm : ¬ IsMapHead n)
    (limit : Nat) (bs : List UInt8) :
    read (limit + 1) (UInt8.ofNat n :: bs) = readFlat n bs := by
  have hn := toNat_ofNat h
  rw [read_flat (by rwa [hn]) (by rwa [hn]), hn]

theorem readFlat_low {head : Nat} (h : head < 0x80) (bs : List UInt8) :
    readFlat head bs = some (uint head, bs) := if_pos h

theorem readFlat_high {head : Nat} (h : 0xe0 ≤ head) (bs : List UInt8) :
    readFlat head bs = some (sint (Int.bmod head 256), bs) := by
  unfold readFlat
  rw [if_neg (by omega), if_pos h]

theorem readFlat_text {head : Nat} (h : 0xa0 ≤ head ∧ head < 0xc0) (bs : List UInt8) :
    readFlat head bs = (takeBytes (head - 0xa0) bs).map fun (ds, r) => (str ds, r) := by
  unfold readFlat
  rw [if_neg (by omega), if_neg (by omega), if_pos h]

/-! ## Values without parts -/

theorem read_encodeNat {n : Nat} (h : n < 256 ^ 8) (limit : Nat) (rest : List UInt8) :
    read (limit + 1) (encodeNat n ++ rest) = some (uint n, rest) := by
  unfold encodeNat
  split
  case isTrue h0 =>
    rw [List.singleton_append, read_byte (by omega) (by unfold IsArrayHead; omega)
      (by unfold IsMapHead; omega), readFlat_low h0]
  case isFalse h0 =>
    repeat' split
    all_goals
      rw [List.cons_append, read_flat (by decide) (by decide)]
      exact congrArg (Option.map _) (takeNat_bigEndian (by omega) rest)

theorem read_encodeInt {n : Int} (hlo : -(256 ^ 8 / 2 : Nat) ≤ n) (hhi : n < (256 ^ 8 / 2 : Nat))
    (limit : Nat) (rest : List UInt8) :
    read (limit + 1) (encodeInt n ++ rest) = some (sint n, rest) := by
  unfold encodeInt
  split
  case isTrue h0 =>
    have hb : Int.bmod ((n + 256).toNat : Int) 256 = n := by
      rw [Int.toNat_of_nonneg (by omega), show n + 256 = n + (256 : Nat) from rfl,
        Int.add_bmod_right]
      exact Int.bmod_eq_of_le (by omega) (by omega)
    rw [signedBytes_one h0.1 h0.2, List.singleton_append, read_byte (by omega)
      (by unfold IsArrayHead; omega) (by unfold IsMapHead; omega), readFlat_high (by omega), hb]
  case isFalse h0 =>
    repeat' split
    all_goals
      rw [List.cons_append, read_flat (by decide) (by decide)]
      exact congrArg (Option.map _) (takeInt_signedBytes (by omega) (by omega) rest)

theorem read_text {bs : List UInt8} (h : bs.length < 256 ^ 4) (limit : Nat) (rest : List UInt8) :
    read (limit + 1) (textHead bs.length ++ bs ++ rest) = some (str bs, rest) := by
  rw [List.append_assoc]
  unfold textHead
  split
  case isTrue h0 =>
    rw [List.singleton_append, read_byte (by omega) (by unfold IsArrayHead; omega)
      (by unfold IsMapHead; omega), readFlat_text (by omega), Nat.add_sub_cancel_left,
      takeBytes_eq_some.mpr ⟨rfl, rfl⟩]
    rfl
  case isFalse h0 =>
    repeat' split
    all_goals
      rw [List.cons_append, read_flat (by decide) (by decide)]
      exact congrArg (Option.map _) (takeSized_bigEndian (by omega) rest)

theorem read_data {bs : List UInt8} (h : bs.length < 256 ^ 4) (limit : Nat) (rest : List UInt8) :
    read (limit + 1) (dataHead bs.length ++ bs ++ rest) = some (bin bs, rest) := by
  rw [List.append_assoc]
  unfold dataHead
  repeat' split
  all_goals
    rw [List.cons_append, read_flat (by decide) (by decide)]
    exact congrArg (Option.map _) (takeSized_bigEndian (by omega) rest)

theorem read_tagged {tag : UInt8} {bs : List UInt8} (h : bs.length < 256) (limit : Nat)
    (rest : List UInt8) :
    read (limit + 1) (0xc7 :: bigEndian 1 bs.length ++ tag :: bs ++ rest) =
      some (ext tag bs, rest) := by
  have hn := takeNat_bigEndian (show bs.length < 256 ^ 1 by omega) (tag :: bs ++ rest)
  rw [List.append_assoc, List.cons_append, read_flat (by decide) (by decide)]
  have hr (bs) : readFlat 0xc7 bs = (takeNat 1 bs).bind fun x => takeExt x.1 x.2 := rfl
  refine (hr _).trans ?_
  rw [hn]
  exact congrArg (Option.map _) (takeBytes_eq_some.mpr ⟨rfl, rfl⟩)

theorem read_float {bs : List UInt8} (h : bs.length = 4 ∨ bs.length = 8) (limit : Nat)
    (rest : List UInt8) :
    read (limit + 1) ((if bs.length = 4 then 0xca else 0xcb) :: bs ++ rest) =
      some (float bs, rest) := by
  rw [List.cons_append]
  split
  case isTrue h4 =>
    rw [read_flat (by decide) (by decide)]
    exact congrArg (Option.map _) (takeBytes_eq_some.mpr ⟨h4, rfl⟩)
  case isFalse h4 =>
    rw [read_flat (by decide) (by decide)]
    exact congrArg (Option.map _) (takeBytes_eq_some.mpr ⟨h.resolve_left h4, rfl⟩)

/-! ## Values with parts -/

theorem read_arrayHead {n : Nat} (h : n < 256 ^ 4) (limit : Nat) (rest : List UInt8) :
    read (limit + 1) (arrayHead n ++ rest) =
      (readMany (read limit) n rest).bind fun (items, rest) => some (array items, rest) := by
  unfold arrayHead
  split
  case isTrue h0 =>
    have hn := toNat_ofNat (show 0x90 + n < 256 by omega)
    rw [List.singleton_append, read_array (by rw [hn]; unfold IsArrayHead; omega), hn, arrayLength,
      if_pos (by omega), Nat.add_sub_cancel_left]
    rfl
  case isFalse h0 =>
    split
    all_goals
      rw [List.cons_append, read_array (by decide)]
      exact congrArg (Option.bind · _) (takeNat_bigEndian (by omega) rest)

theorem read_mapHead {n : Nat} (h : n < 256 ^ 4) (limit : Nat) (rest : List UInt8) :
    read (limit + 1) (mapHead n ++ rest) =
      (readMany (readEntry (read limit)) n rest).bind fun (entries, rest) =>
        some (map entries, rest) := by
  unfold mapHead
  split
  case isTrue h0 =>
    have hn := toNat_ofNat (show 0x80 + n < 256 by omega)
    rw [List.singleton_append, read_map (by rw [hn]; unfold IsMapHead; omega), hn, mapLength,
      if_pos (by omega), Nat.add_sub_cancel_left]
    rfl
  case isFalse h0 =>
    split
    all_goals
      rw [List.cons_append, read_map (by decide)]
      exact congrArg (Option.bind · _) (takeNat_bigEndian (by omega) rest)

/-! ## Writable values -/

mutual

/-- Whether the format can express a value: its numbers fit 64 bits, its lengths 32. -/
def Writable : Pack → Prop
  | nil | bool _ => True
  | uint n => n < 256 ^ 8
  | sint n => -(256 ^ 8 / 2 : Nat) ≤ n ∧ n < (256 ^ 8 / 2 : Nat)
  | float bytes => bytes.length = 4 ∨ bytes.length = 8
  | str bytes | bin bytes => bytes.length < 256 ^ 4
  | array items => items.length < 256 ^ 4 ∧ WritableItems items
  | map entries => entries.length < 256 ^ 4 ∧ WritableEntries entries
  | ext _ bytes => bytes.length < 256

/-- Whether the format can express the values of an array. -/
def WritableItems : List Pack → Prop
  | [] => True
  | p :: ps => Writable p ∧ WritableItems ps

/-- Whether the format can express the keys and values of a map. -/
def WritableEntries : List (Pack × Pack) → Prop
  | [] => True
  | (k, v) :: es => Writable k ∧ Writable v ∧ WritableEntries es

end

section Parts

variable {limit : Nat}
  (ih : ∀ p : Pack, p.Writable → p.depth < limit →
    ∀ rest, read limit (p.encode ++ rest) = some (p, rest))

include ih

theorem readMany_encodeItems (ps : List Pack) (hw : WritableItems ps)
    (hd : depthOfItems ps < limit) (rest : List UInt8) :
    readMany (read limit) ps.length (encodeItems ps ++ rest) = some (ps, rest) := by
  induction ps with
  | nil => rfl
  | cons p ps ihs =>
    rw [depthOfItems, Nat.max_lt] at hd
    rw [List.length_cons, readMany, encodeItems, List.append_assoc, ih p hw.1 hd.1]
    simp only [Option.bind_eq_bind, Option.bind_some, ihs hw.2 hd.2]
    rfl

theorem readMany_encodeEntries (es : List (Pack × Pack)) (hw : WritableEntries es)
    (hd : depthOfEntries es < limit) (rest : List UInt8) :
    readMany (readEntry (read limit)) es.length (encodeEntries es ++ rest) = some (es, rest) := by
  induction es with
  | nil => rfl
  | cons e es ihs =>
    obtain ⟨k, v⟩ := e
    rw [depthOfEntries, Nat.max_lt, Nat.max_lt] at hd
    obtain ⟨hk, hv, hes⟩ := hw
    have he : readEntry (read limit) (k.encode ++ v.encode ++ (encodeEntries es ++ rest)) =
        some ((k, v), encodeEntries es ++ rest) := by
      rw [readEntry, List.append_assoc, ih k hk hd.1.1]
      simp only [Option.bind_eq_bind, Option.bind_some, ih v hv hd.1.2]
      rfl
    rw [List.length_cons, readMany, encodeEntries, List.append_assoc _ _ rest, he]
    simp only [Option.bind_eq_bind, Option.bind_some, ihs hes hd.2]
    rfl

end Parts

/-- **A value that has been written is read back, and reading stops right behind it.** -/
theorem read_encode {limit : Nat} {p : Pack} (hw : p.Writable) (hd : p.depth < limit)
    (rest : List UInt8) : read limit (p.encode ++ rest) = some (p, rest) := by
  induction limit generalizing p rest with
  | zero => omega
  | succ limit ih =>
    cases p with
    | nil => rfl
    | bool b => cases b <;> rfl
    | uint n => exact read_encodeNat hw limit rest
    | sint n => exact read_encodeInt hw.1 hw.2 limit rest
    | float bytes => exact read_float hw limit rest
    | str bytes => exact read_text hw limit rest
    | bin bytes => exact read_data hw limit rest
    | ext tag bytes => exact read_tagged hw limit rest
    | array items =>
      rw [depth] at hd
      rw [encode, List.append_assoc, read_arrayHead hw.1,
        readMany_encodeItems (fun p hw hd => ih hw hd) items hw.2 (by omega)]
      rfl
    | map entries =>
      rw [depth] at hd
      rw [encode, List.append_assoc, read_mapHead hw.1,
        readMany_encodeEntries (fun p hw hd => ih hw hd) entries hw.2 (by omega)]
      rfl

theorem parse?_encode {p : Pack} (hw : p.Writable) (hd : p.depth < nestingLimit + 3)
    (rest : List UInt8) : parse? (p.encode ++ rest) = some p := by
  rw [parse?, read_encode hw hd]
  rfl

/-- A value is not read from a part of its bytes. -/
theorem parse?_eq_none {p : Pack} (hw : p.Writable) (hd : p.depth < nestingLimit + 3)
    {bs later : List UInt8} (he : bs ++ later = p.encode) (hl : later ≠ []) : parse? bs = none := by
  have hr : read (nestingLimit + 3) (bs ++ later) = some (p, []) := by
    rw [he, ← List.append_nil p.encode, read_encode hw hd]
  rw [parse?, (streams_read _).eq_none_of_append hr hl]
  rfl

end Pack

end Dataflow
