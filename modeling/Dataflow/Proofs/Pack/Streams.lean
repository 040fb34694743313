import Dataflow.Pack.Read
import Dataflow.Proofs.Code.Bytes

/-!
# Bytes behind a value

Reading takes what it needs from the front: bytes that come later change neither the value nor what
is left before them. So a value that has been written cannot be read from a part of its bytes.

* `Pack.Streams`: a reader that leaves later bytes alone;
* **`Pack.streams_read`**: reading values is such a reader;
* `Pack.Streams.eq_none_of_append`: what is needed to the last byte is not read from less.
-/

namespace Dataflow

namespace Pack

variable {α β : Type}

/-- A reader to which bytes that come later make no difference. -/
def Streams (read : List UInt8 → Option (α × List UInt8)) : Prop :=
  ∀ ⦃bs a rest⦄, read bs = some (a, rest) → ∀ later, read (bs ++ later) = some (a, rest ++ later)

namespace Streams

variable {read : List UInt8 → Option (α × List UInt8)}

theorem map (h : Streams read) (f : α → β) :
    Streams fun bs => (read bs).map fun (a, rest) => (f a, rest) := by
  intro bs b rest hb later
  obtain ⟨⟨a, rest'⟩, ha, he⟩ := Option.map_eq_some_iff.mp hb
  cases he
  simp only [h ha later, Option.map_some]

theorem bind (h : Streams read) {next : α → List UInt8 → Option (β × List UInt8)}
    (hn : ∀ a, Streams (next a)) : Streams fun bs => (read bs).bind fun (a, rest) => next a rest := by
  intro bs b rest hb later
  obtain ⟨⟨a, rest'⟩, ha, hb⟩ := Option.bind_eq_some_iff.mp hb
  simp only [h ha later, Option.bind_some]
  exact hn a hb later

theorem ite {read' : List UInt8 → Option (α × List UInt8)} (h : Streams read) (h' : Streams read')
    (c : Prop) [Decidable c] : Streams fun bs => if c then read bs else read' bs := by
  intro bs a rest hr later
  by_cases hc : c
  · simp only [if_pos hc] at hr ⊢
    exact h hr later
  · simp only [if_neg hc] at hr ⊢
    exact h' hr later

/-- What a reader needs to the last byte is not read from less. -/
theorem eq_none_of_append (h : Streams read) {bs later : List UInt8} {a : α}
    (hr : read (bs ++ later) = some (a, [])) (hl : later ≠ []) : read bs = none := by
  cases hb : read bs with
  | none => rfl
  | some x =>
    have he := (h hb later).symm.trans hr
    simp [hl] at he

end Streams

theorem streams_none : Streams fun _ => (none : Option (α × List UInt8)) := nofun

theorem streams_some (a : α) : Streams fun bs => some (a, bs) := by
  intro bs b rest h later
  cases h
  rfl

theorem takeBytes_eq_some {n : Nat} {bs ds rest : List UInt8} :
    takeBytes n bs = some (ds, rest) ↔ ds.length = n ∧ bs = ds ++ rest := by
  have hparts : bs.splitAt n = (bs.take n, bs.drop n) := List.splitAt_eq
  simp only [takeBytes, hparts]
  constructor
  · intro h
    split at h
    case isTrue hn =>
      cases h
      exact ⟨hn, (List.take_append_drop n bs).symm⟩
    case isFalse => cases h
  · rintro ⟨rfl, rfl⟩
    simp

theorem streams_takeBytes (n : Nat) : Streams (takeBytes n) := by
  intro bs ds rest h later
  obtain ⟨hn, rfl⟩ := takeBytes_eq_some.mp h
  exact takeBytes_eq_some.mpr ⟨hn, List.append_assoc ..⟩

theorem streams_takeNat (width : Nat) : Streams (takeNat width) :=
  (streams_takeBytes width).map natOfBig

theorem streams_takeInt (width : Nat) : Streams (takeInt width) :=
  (streams_takeNat width).map fun n => Int.bmod n (Nat.pow 256 width)

theorem streams_takeSized (width : Nat) : Streams (takeSized width) :=
  (streams_takeNat width).bind streams_takeBytes

theorem streams_takeExt (n : Nat) : Streams (takeExt n) := by
  intro bs p rest h later
  cases bs with
  | nil => cases h
  | cons tag bs => exact (streams_takeBytes n).map (ext tag) h later

theorem streams_sizedExt (width : Nat) :
    Streams fun bs => (takeNat width bs).bind fun (n, rest) => takeExt n rest :=
  (streams_takeNat width).bind streams_takeExt

theorem streams_readFlat (head : Nat) : Streams (readFlat head) := by
  unfold readFlat
  refine .ite (streams_some _) (.ite (streams_some _) (.ite ((streams_takeBytes _).map str) ?_ _) _) _
  intro bs p rest h later
  split at h
  case h_1 | h_2 | h_3 => exact streams_some _ h later
  case h_4 | h_5 | h_6 => exact (streams_takeSized _).map bin h later
  case h_7 | h_8 | h_9 => exact streams_sizedExt _ h later
  case h_10 | h_11 => exact (streams_takeBytes _).map float h later
  case h_12 | h_13 | h_14 | h_15 => exact (streams_takeNat _).map uint h later
  case h_16 | h_17 | h_18 | h_19 => exact (streams_takeInt _).map sint h later
  case h_20 | h_21 | h_22 | h_23 | h_24 => exact streams_takeExt _ h later
  case h_25 | h_26 | h_27 => exact (streams_takeSized _).map str h later
  case h_28 => cases h

theorem streams_arrayLength (head : Nat) : Streams (arrayLength head) :=
  (streams_some _).ite ((streams_takeNat 2).ite ((streams_takeNat 4).ite streams_none _) _) _

theorem streams_mapLength (head : Nat) : Streams (mapLength head) :=
  (streams_some _).ite ((streams_takeNat 2).ite ((streams_takeNat 4).ite streams_none _) _) _

theorem streams_readMany {one : List UInt8 → Option (α × List UInt8)} (h : Streams one) (n : Nat) :
    Streams (readMany one n) := by
  induction n with
  | zero => exact streams_some []
  | succ n ih => exact h.bind fun a => ih.bind fun as => streams_some (a :: as)

theorem streams_readEntry {one : List UInt8 → Option (Pack × List UInt8)} (h : Streams one) :
    Streams (readEntry one) := h.bind fun k => h.bind fun v => streams_some (k, v)

/-! ## Heads -/

/-- The first byte of an array. -/
def IsArrayHead (head : Nat) : Prop := (0x90 ≤ head ∧ head < 0xa0) ∨ head = 0xdc ∨ head = 0xdd

/-- The first byte of a map. -/
def IsMapHead (head : Nat) : Prop := (0x80 ≤ head ∧ head < 0x90) ∨ head = 0xde ∨ head = 0xdf

instance (head : Nat) : Decidable (IsArrayHead head) := by unfold IsArrayHead; infer_instance

instance (head : Nat) : Decidable (IsMapHead head) := by unfold IsMapHead; infer_instance

theorem IsArrayHead.not_isMapHead {head : Nat} (h : IsArrayHead head) : ¬ IsMapHead head := by
  unfold IsArrayHead at h
  unfold IsMapHead
  omega

theorem arrayLength_eq_none {head : Nat} (h : ¬ IsArrayHead head) (bs : List UInt8) :
    arrayLength head bs = none := by
  unfold IsArrayHead at h
  unfold arrayLength
  rw [if_neg (by omega), if_neg (by omega), if_neg (by omega)]

theorem mapLength_eq_none {head : Nat} (h : ¬ IsMapHead head) (bs : List UInt8) :
    mapLength head bs = none := by
  unfold IsMapHead at h
  unfold mapLength
  rw [if_neg (by omega), if_neg (by omega), if_neg (by omega)]

theorem readFlat_eq_none {head : Nat} (h : IsArrayHead head ∨ IsMapHead head) (bs : List UInt8) :
    readFlat head bs = none := by
  unfold IsArrayHead IsMapHead at h
  unfold readFlat
  rw [if_neg (by omega), if_neg (by omega), if_neg (by omega)]
  split
  case h_28 => rfl
  all_goals omega

theorem read_array {head : UInt8} (h : IsArrayHead head.toNat) (limit : Nat) (bs : List UInt8) :
    read (limit + 1) (head :: bs) = (arrayLength head.toNat bs).bind fun (n, rest) =>
      (readMany (read limit) n rest).bind fun (items, rest) => some (array items, rest) := by
  rw [read]
  cases arrayLength head.toNat bs with
  | some x => rfl
  | none =>
    rw [mapLength_eq_none h.not_isMapHead]
    exact readFlat_eq_none (.inl h) bs

theorem read_map {head : UInt8} (h : IsMapHead head.toNat) (limit : Nat) (bs : List UInt8) :
    read (limit + 1) (head :: bs) = (mapLength head.toNat bs).bind fun (n, rest) =>
      (readMany (readEntry (read limit)) n rest).bind fun (entries, rest) =>
        some (map entries, rest) := by
  rw [read, arrayLength_eq_none fun ha => ha.not_isMapHead h]
  cases mapLength head.toNat bs with
  | some x => rfl
  | none => exact readFlat_eq_none (.inr h) bs

theorem read_flat {head : UInt8} (ha : ¬ IsArrayHead head.toNat) (hm : ¬ IsMapHead head.toNat)
    (limit : Nat) (bs : List UInt8) : read (limit + 1) (head :: bs) = readFlat head.toNat bs := by
  rw [read, arrayLength_eq_none ha, mapLength_eq_none hm]

/-- Reading values leaves later bytes alone. -/
theorem streams_read (limit : Nat) : Streams (read limit) := by
  induction limit with
  | zero => nofun
  | succ limit ih =>
    intro bs p rest h later
    cases bs with
    | nil => cases h
    | cons head bs =>
      rw [List.cons_append]
      by_cases ha : IsArrayHead head.toNat
      · rw [read_array ha] at h ⊢
        exact ((streams_arrayLength _).bind fun n => (streams_readMany ih n).bind fun items =>
          streams_some (array items)) h later
      · by_cases hm : IsMapHead head.toNat
        · rw [read_map hm] at h ⊢
          exact ((streams_mapLength _).bind fun n => (streams_readMany (streams_readEntry ih) n).bind
            fun entries => streams_some (map entries)) h later
        · rw [read_flat ha hm] at h ⊢
          exact streams_readFlat _ h later

end Pack

end Dataflow
