import Dataflow.Code.Codec
import Dataflow.Proofs.Pack.RoundTrip

/-!
# Units that have been written

The binary form of a unit is read back with the same constants and instructions, whatever bytes
follow it, and no part of it is taken for a unit.

* `Pack.fields?_record`, `Pack.variant?_record`: records and variants are read back;
* `Constant.ofPack?_pack`, `Instruction.ofPack?_pack`, `Code.ofPack?_pack`: so are constants,
  instructions and units;
* `Code.Sized`: units whose lists are short enough for the format;
* **`Code.encode_selfDelimiting`**: the binary form of such a unit.
-/

namespace Dataflow

namespace Pack

/-! ## Names -/

theorem position?_ofText (names : List String) (name : String) :
    position? names (ofText name) = some (names.findIdx (· = name)) := by
  simp only [ofText, position?, utf8_inj]

theorem position?_append {before : List String} {name : String} (h : name ∉ before)
    (after : List String) :
    position? (before ++ name :: after) (ofText name) = some before.length := by
  have hb : before.findIdx (· = name) = before.length := by
    rw [List.findIdx_eq_length]
    intro n hn
    simpa using fun (he : n = name) => h (he ▸ hn)
  rw [position?_ofText, List.findIdx_append, hb, if_neg (by omega), List.findIdx_cons]
  simp

/-! ## Records -/

/-- The entries of a record are collected one after the other, those of `before` being there. -/
theorem collect_entries (room : Nat) (before after : List (String × Pack))
    (h : ((before ++ after).map (·.1)).Nodup) :
    collect room ((before ++ after).map (·.1)) (after.map fun f => (ofText f.1, f.2))
      (before.map (some ·.2) ++ after.map fun _ => none) =
      some ((before ++ after).map (some ·.2)) := by
  induction after generalizing before with
  | nil => simp [collect]
  | cons field after ih =>
    obtain ⟨name, value⟩ := field
    have hnot : name ∉ before.map (·.1) := by
      rw [List.map_append, List.map_cons] at h
      exact fun hm => (List.nodup_append.mp h).2.2 _ hm _ List.mem_cons_self rfl
    have hpos : position? ((before ++ (name, value) :: after).map (·.1)) (ofText name) =
        some before.length := by
      rw [List.map_append, List.map_cons, position?_append hnot, List.length_map]
    have hget : (before.map (fun field => some field.2) ++ ((name, value) :: after).map
        fun _ => none)[before.length]? = some (none : Option Pack) := by
      simp
    have hset : (before.map (fun field : String × Pack => some field.2) ++ ((name, value) :: after).map
        fun _ => none).set before.length (some value) =
        (before ++ [(name, value)]).map (some ·.2) ++ after.map fun _ => (none : Option Pack) := by
      simp
    have hsplit : before ++ (name, value) :: after = (before ++ [(name, value)]) ++ after := by simp
    rw [List.map_cons, collect, hpos]
    simp only [Option.bind_eq_bind, Option.bind_some, hget, hset]
    rw [hsplit] at h ⊢
    exact ih _ h

/-- A record whose fields have different names is read back. -/
theorem fields?_record (room : Nat) (fields : List (String × Pack))
    (h : (fields.map (·.1)).Nodup) :
    (record fields).fields? room (fields.map (·.1)) = some (fields.map (·.2)) := by
  have hall : (fields.map (some ·.2)).mapM id = some (fields.map (·.2)) := by
    clear h
    induction fields with
    | nil => rfl
    | cons field fields ih => simp [ih]
  have hc := collect_entries (room - 1) [] fields h
  simp only [List.nil_append, List.map_nil] at hc
  rw [record, fields?, List.map_map]
  simp only [Function.comp_def, hc, Option.bind_eq_bind, Option.bind_some, hall]

/-! ## Variants -/

/-- A variant with a payload is read back. -/
theorem variant?_record (names : List String) (name : String) (value : Pack) :
    (record [(name, value)]).variant? names = some (names.findIdx (· = name), some value) := by
  simp only [record, List.map_cons, List.map_nil, variant?, position?_ofText, Option.map_some]

/-- A variant without a payload is read back. -/
theorem variant?_ofText (names : List String) (name : String) :
    (ofText name).variant? names = some (names.findIdx (· = name), none) := by
  have h : (ofText name).variant? names = (position? names (ofText name)).map fun i => (i, none) := rfl
  rw [h, position?_ofText]
  rfl

theorem unitVariant?_ofText (names : List String) (name : String) :
    (ofText name).unitVariant? names = some (names.findIdx (· = name)) := by
  rw [unitVariant?, variant?_ofText]

/-! ## Numbers and lists -/

theorem intWithin?_eq {low high n : Int} {p : Pack} (hp : p.toInt? = some n) (hlo : low ≤ n)
    (hhi : n ≤ high) : p.intWithin? low high = some n := by
  rw [intWithin?, hp]
  exact if_pos ⟨hlo, hhi⟩

theorem toInt?_ofInt (n : Int) : (ofInt n).toInt? = some n := by
  unfold ofInt
  split
  case isTrue h => exact congrArg some (Int.toNat_of_nonneg h)
  case isFalse => rfl

theorem mapM_map {α : Type} {f : Pack → Option α} {g : α → Pack} (h : ∀ a, f (g a) = some a)
    (as : List α) : (as.map g).mapM f = some as := by
  induction as with
  | nil => rfl
  | cons a as ih => simp [h, ih]

theorem bytes?_ofBytes (bytes : List UInt8) : (ofBytes bytes).bytes? = some bytes := by
  refine mapM_map (fun b => ?_) bytes
  rw [intWithin?_eq rfl (Int.natCast_nonneg _) (by have := b.toNat_lt; omega)]
  simp

/-! ## Sizes -/

theorem writableItems_iff {ps : List Pack} : WritableItems ps ↔ ∀ p ∈ ps, p.Writable := by
  induction ps with
  | nil => simp [WritableItems]
  | cons p ps ih => simp [WritableItems, ih]

theorem depthOfItems_le_iff {ps : List Pack} {d : Nat} :
    depthOfItems ps ≤ d ↔ ∀ p ∈ ps, p.depth ≤ d := by
  induction ps with
  | nil => simp [depthOfItems]
  | cons p ps ih => simp [depthOfItems, ih]

/-- A value that the format can express and that is nested at most `d` deep. -/
def Fits (d : Nat) (p : Pack) : Prop := p.Writable ∧ p.depth ≤ d

theorem fits_ofText {name : String} (h : (utf8 name).length < 256 ^ 4) : (ofText name).Fits 0 :=
  ⟨h, Nat.le_refl 0⟩

theorem fits_uint {n : Nat} (h : n < 256 ^ 8) : (uint n).Fits 0 := ⟨h, Nat.le_refl 0⟩

theorem fits_ofInt {n : Int} (hlo : -(256 ^ 4 : Nat) ≤ n) (hhi : n < (256 ^ 4 : Nat)) :
    (ofInt n).Fits 0 := by
  unfold ofInt
  split
  · exact fits_uint (by omega)
  · exact ⟨⟨by omega, by omega⟩, Nat.le_refl 0⟩

theorem fits_array {d : Nat} {ps : List Pack} (hl : ps.length < 256 ^ 4) (h : ∀ p ∈ ps, p.Fits d) :
    (array ps).Fits (d + 1) := by
  refine ⟨⟨hl, writableItems_iff.mpr fun p hp => (h p hp).1⟩, ?_⟩
  have hd := depthOfItems_le_iff.mpr fun p hp => (h p hp).2
  rw [depth]
  omega

theorem fits_entries {d : Nat} {es : List (Pack × Pack)}
    (h : ∀ e ∈ es, e.1.Fits d ∧ e.2.Fits d) : WritableEntries es ∧ depthOfEntries es ≤ d := by
  induction es with
  | nil => exact ⟨trivial, Nat.zero_le d⟩
  | cons e es ih =>
    obtain ⟨hk, hv⟩ := h e List.mem_cons_self
    obtain ⟨hw, hd⟩ := ih fun e he => h e (List.mem_cons_of_mem _ he)
    exact ⟨⟨hk.1, hv.1, hw⟩, Nat.max_le.mpr ⟨Nat.max_le.mpr ⟨hk.2, hv.2⟩, hd⟩⟩

theorem Fits.mono {d d' : Nat} {p : Pack} (h : p.Fits d) (hd : d ≤ d') : p.Fits d' :=
  ⟨h.1, h.2.trans hd⟩

theorem fits_record {d : Nat} {fields : List (String × Pack)} (hl : fields.length < 256 ^ 4)
    (h : ∀ f ∈ fields, (utf8 f.1).length < 256 ^ 4 ∧ f.2.Fits d) : (record fields).Fits (d + 1) := by
  have he : ∀ e ∈ fields.map fun f => (ofText f.1, f.2), e.1.Fits d ∧ e.2.Fits d := by
    intro e he
    obtain ⟨f, hf, rfl⟩ := List.mem_map.mp he
    exact ⟨(fits_ofText (h f hf).1).mono (Nat.zero_le d), (h f hf).2⟩
  obtain ⟨hw, hd⟩ := fits_entries he
  refine ⟨⟨by rwa [List.length_map], hw⟩, ?_⟩
  rw [record, depth, Nat.add_comm]
  exact Nat.succ_le_succ hd

theorem fits_ofBytes {bytes : List UInt8} (h : bytes.length < 256 ^ 4) : (ofBytes bytes).Fits 1 := by
  refine fits_array (by rwa [List.length_map]) fun p hp => ?_
  obtain ⟨b, -, rfl⟩ := List.mem_map.mp hp
  exact fits_uint (by have := b.toNat_lt; omega)

end Pack

/-! ## Units -/

theorem valueIdOf?_ofInt (id : ValueId) : valueIdOf? (.ofInt id.toInt) = some id := by
  have hlo := id.le_toInt
  have hhi := id.toInt_lt
  rw [valueIdOf?, Pack.intWithin?_eq (Pack.toInt?_ofInt _) (by omega) (by omega)]
  simp

theorem wordOf?_uint (n : UInt32) : wordOf? (.uint n.toNat) = some n := by
  have hn := n.toNat_lt
  rw [wordOf?, Pack.intWithin?_eq rfl (by omega) (by omega)]
  simp

theorem Form.ofPack?_tag (form : Form) : Form.ofPack? (.ofText form.tag) = some form := by
  rw [ofPack?, Pack.unitVariant?_ofText]
  cases form <;> rfl

theorem Constant.Kind.ofPack?_name (kind : Constant.Kind) :
    Kind.ofPack? (.ofText kind.name) = some kind := by
  rw [ofPack?, Pack.unitVariant?_ofText]
  cases kind <;> rfl

theorem Constant.ofPack?_pack (room : Nat) (c : Constant) : ofPack? room c.pack = some c := by
  have hf := Pack.fields?_record room [("kind", .ofText c.kind.name), ("bytes", .ofBytes c.bytes)]
    (by simp)
  simp only [List.map_cons, List.map_nil] at hf
  rw [ofPack?, pack, hf]
  simp [Kind.ofPack?_name, Pack.bytes?_ofBytes]

theorem Constant.fits_pack (c : Constant) (h : c.bytes.length < 256 ^ 4) : c.pack.Fits 2 := by
  have hk : (Pack.ofText c.kind.name).Fits 1 :=
    (Pack.fits_ofText (by cases c.kind <;> decide +kernel)).mono (Nat.zero_le 1)
  refine Pack.fits_record (by decide : 2 < 256 ^ 4) ?_
  simp only [List.forall_mem_cons, List.not_mem_nil, false_imp_iff, implies_true, and_true]
  exact ⟨⟨by decide +kernel, hk⟩, by decide +kernel, Pack.fits_ofBytes h⟩

theorem Instruction.ofPack?_pack (room : Nat) (i : Instruction) : ofPack? room i.pack = some i := by
  cases i with
  | argument id | call id | copy id =>
    rw [ofPack?, pack, Pack.variant?_record]
    simp [tags, List.findIdx_cons, valueIdOf?_ofInt]
  | constant n | enter n =>
    rw [ofPack?, pack, Pack.variant?_record]
    simp [tags, List.findIdx_cons, wordOf?_uint]
  | leave =>
    rw [ofPack?, pack, Pack.variant?_ofText]
    simp [tags, List.findIdx_cons]
  | field value name form =>
    have hf := Pack.fields?_record room [("value", .ofInt value.toInt), ("field", .uint name.toNat),
      ("form", .ofText form.tag)] (by simp)
    simp only [List.map_cons, List.map_nil] at hf
    rw [ofPack?, pack, Pack.variant?_record]
    simp [tags, List.findIdx_cons, hf, valueIdOf?_ofInt, wordOf?_uint, Form.ofPack?_tag]

/-- A variant with one number. -/
theorem Pack.fits_variant {name : String} {p : Pack} (hn : (utf8 name).length < 256 ^ 4)
    {d : Nat} (hp : p.Fits d) : (Pack.record [(name, p)]).Fits (d + 1) := by
  refine Pack.fits_record (by decide : 1 < 256 ^ 4) ?_
  simpa using ⟨hn, hp⟩

theorem fits_valueId (id : ValueId) : (Pack.ofInt id.toInt).Fits 0 := by
  have hlo := id.le_toInt
  have hhi := id.toInt_lt
  exact Pack.fits_ofInt (by omega) (by omega)

theorem fits_word (n : UInt32) : (Pack.uint n.toNat).Fits 0 :=
  Pack.fits_uint (by have := n.toNat_lt; omega)

theorem Instruction.fits_pack (i : Instruction) : i.pack.Fits 2 := by
  have one {name : String} {p : Pack} (hn : (utf8 name).length < 256 ^ 4) (hp : p.Fits 0) :
      (Pack.record [(name, p)]).Fits 2 := (Pack.fits_variant hn hp).mono (by decide)
  cases i with
  | argument id | call id | copy id => exact one (by decide +kernel) (fits_valueId id)
  | constant n | enter n => exact one (by decide +kernel) (fits_word n)
  | leave => exact (Pack.fits_ofText (by decide +kernel)).mono (by decide)
  | field value name form =>
    refine Pack.fits_variant (by decide +kernel) (Pack.fits_record (by decide : 3 < 256 ^ 4) ?_)
    simp only [List.forall_mem_cons, List.not_mem_nil, false_imp_iff, implies_true, and_true]
    exact ⟨⟨by decide +kernel, fits_valueId value⟩, ⟨by decide +kernel, fits_word name⟩,
      by decide +kernel, Pack.fits_ofText (by cases form <;> decide +kernel)⟩

namespace Code

theorem ofPack?_pack (room : Nat) (c : Code) : ofPack? room c.pack = some (c.withChecksum .zero) := by
  have hf := Pack.fields?_record room [("constants", .array (c.constants.map Constant.pack)),
    ("instructions", .array (c.instructions.map Instruction.pack))] (by simp)
  simp only [List.map_cons, List.map_nil] at hf
  rw [ofPack?, pack, hf]
  simp [Pack.items?, Pack.mapM_map (Constant.ofPack?_pack _), Pack.mapM_map (Instruction.ofPack?_pack _),
    withChecksum]

/-- Units whose lists are short enough for the format. -/
structure Sized (c : Code) : Prop where
  constants : c.constants.length < 2 ^ 32
  bytes : ∀ k ∈ c.constants, k.bytes.length < 2 ^ 32
  instructions : c.instructions.length < 2 ^ 32

theorem Sized.fits_pack {c : Code} (h : c.Sized) : c.pack.Fits 4 := by
  have hc : (Pack.array (c.constants.map Constant.pack)).Fits 3 := by
    refine Pack.fits_array (by rw [List.length_map]; exact h.constants) fun p hp => ?_
    obtain ⟨k, hk, rfl⟩ := List.mem_map.mp hp
    exact k.fits_pack (h.bytes k hk)
  have hi : (Pack.array (c.instructions.map Instruction.pack)).Fits 3 := by
    refine Pack.fits_array (by rw [List.length_map]; exact h.instructions) fun p hp => ?_
    obtain ⟨i, -, rfl⟩ := List.mem_map.mp hp
    exact i.fits_pack
  refine Pack.fits_record (by decide : 2 < 256 ^ 4) ?_
  simp only [List.forall_mem_cons, List.not_mem_nil, false_imp_iff, implies_true, and_true]
  exact ⟨⟨by decide +kernel, hc⟩, by decide +kernel, hi⟩

theorem Sized.depth_lt {c : Code} (h : c.Sized) : c.pack.depth < Pack.nestingLimit + 3 :=
  Nat.lt_of_le_of_lt h.fits_pack.2 (by decide)

/-- A unit is read back, whatever follows it. -/
theorem decode?_encode {c : Code} (h : c.Sized) (rest : List UInt8) :
    decode? (c.encode ++ rest) = some (c.withChecksum .zero) := by
  rw [decode?, encode, Pack.parse?_encode h.fits_pack.1 h.depth_lt]
  exact ofPack?_pack _ c

/-- A part of a unit is not taken for a unit. -/
theorem decode?_eq_none {c : Code} (h : c.Sized) {bs : List UInt8} (hp : bs <+: c.encode)
    (hne : bs ≠ c.encode) : decode? bs = none := by
  obtain ⟨later, hl⟩ := hp
  have hlater : later ≠ [] := by
    rintro rfl
    exact hne (by rw [← hl, List.append_nil])
  rw [decode?, Pack.parse?_eq_none h.fits_pack.1 h.depth_lt hl hlater]
  rfl

/-- Different constants or instructions have different bytes. -/
theorem encode_inj {c d : Code} (hc : c.Sized) (hd : d.Sized) (he : d.encode = c.encode) :
    d.constants = c.constants ∧ d.instructions = c.instructions := by
  have hread := (decode?_encode hd []).symm.trans (he ▸ decode?_encode hc [])
  simpa [withChecksum] using hread

/-- **The binary form of a unit gives back its constants and instructions, and says where it ends.**
Bytes behind it are ignored, no part of it is taken for a unit, the checksum leaves no trace in it,
and units that differ in their constants or instructions differ in it. -/
theorem encode_selfDelimiting {c : Code} (h : c.Sized) :
    (∀ rest, decode? (c.encode ++ rest) = some ⟨.zero, c.constants, c.instructions⟩) ∧
      (∀ bs, bs <+: c.encode → bs ≠ c.encode → decode? bs = none) ∧
      (∀ checksum, (c.withChecksum checksum).encode = c.encode) ∧
      ∀ d : Code, d.Sized → d.encode = c.encode →
        d.constants = c.constants ∧ d.instructions = c.instructions :=
  ⟨decode?_encode h, fun _ => decode?_eq_none h, fun _ => rfl, fun _ hd => encode_inj h hd⟩

/-- A call of a built-in value with the text `x`. -/
def calling : Code := ⟨.zero, [.ofText "x"], [.constant 0, .argument 0, .call (-300)]⟩

theorem sized_calling : calling.Sized :=
  ⟨by decide, by decide +kernel, by decide⟩

theorem encode_selfDelimiting_calling :
    decode? (calling.encode ++ [0xc1]) = some calling ∧ decode? (calling.encode.take 40) = none :=
  ⟨(encode_selfDelimiting sized_calling).1 _,
    (encode_selfDelimiting sized_calling).2.1 _ (List.take_prefix ..) (by decide +kernel)⟩

end Code

end Dataflow
