import Dataflow.Proofs.Cache.Sharing

/-!
# The cache as a map

To whoever stores and loads units, the files of the cache are a map from checksums to units. A store
changes what is loaded under one checksum and nothing else, whatever the folder holds. A folder that
has taken the place of a unit stays there, and that unit alone is never stored.

* `Files.Rooted`: what stands somewhere stands in a folder;
* `Cache.Usable`: the folder of the cache is there or can be made;
* `Cache.stored`: the files after units have been stored one after the other;
* `Cache.latest?`: which of the units was the last one with a checksum;
* `Usable.load_stored`: so that one is loaded, or what was loaded before;
* `Cache.load_of_read`: what is loaded from any bytes at all;
* **`Cache.exact_map`**: stores and loads are those of a map.
-/

namespace Dataflow

/-! ## Folders that are still to be made -/

/-- A part that leads further down or nowhere. -/
theorem Place.step_cases {part : String} (h : part ≠ "..") (p : Place) :
    p.step part = p ∨ p.step part = p ++ [part] := by
  unfold step
  split
  · exact .inl rfl
  · exact .inr rfl

/-- Without a part that leads up, a path ends below the place it starts from. -/
theorem Place.prefix_foldl_step {parts : List String} (h : ".." ∉ parts) (p : Place) :
    p <+: parts.foldl step p := by
  induction parts generalizing p with
  | nil => exact List.prefix_rfl
  | cons part parts ih =>
    refine List.IsPrefix.trans ?_ (ih (List.not_mem_of_not_mem_cons h) (p.step part))
    obtain hs | hs := step_cases (List.ne_of_not_mem_cons h).symm p
    · rw [hs]
    · rw [hs]
      exact List.prefix_append ..

namespace Files

variable {fs fs' : Files} {p q : Place} {parts : List String}

/-- What stands somewhere stands in a folder. -/
def Rooted (fs : Files) : Prop :=
  ∀ ⦃p : Place⦄ ⦃part : String⦄, fs.at? (p ++ [part]) ≠ none → fs.at? p = some .folder

theorem Rooted.of_prefix (h : fs.Rooted) (hp : p <+: q) (hq : fs.at? q = some .folder) :
    fs.at? p = some .folder := by
  obtain ⟨rest, rfl⟩ := hp
  induction rest using List.reverseRecOn with
  | nil => rwa [List.append_nil] at hq
  | append_singleton rest part ih =>
    rw [← List.append_assoc] at hq
    have hne : fs.at? (p ++ rest ++ [part]) ≠ none := by
      rw [hq]
      simp
    exact ih (h hne)

/-- A folder that is there is reached on each path that would make it. -/
theorem Rooted.folders (h : fs.Rooted) (hup : ".." ∉ parts) (hm : fs'.Folders p parts)
    (hf : fs.at? (parts.foldl Place.step p) = some .folder) : fs.Folders p parts := by
  induction parts generalizing p with
  | nil => exact hf
  | cons part parts ih =>
    exact ⟨h.of_prefix (Place.prefix_foldl_step hup p) hf, hm.2.1,
      ih (List.not_mem_of_not_mem_cons hup) hm.2.2 hf⟩

theorem at?_of_makeFolder {last : Bool} (h : fs.makeFolder p last = .ok fs') (hq : q ≠ p) :
    fs'.at? q = fs.at? q := by
  unfold makeFolder at h
  split at h
  case h_1 =>
    cases h
    exact fs.at?_put_of_ne hq .folder
  case h_2 => cases h; rfl
  case h_3 => cases h

/-- Nothing is made below the folder that a path leads to. -/
theorem at?_of_makeFrom (hup : ".." ∉ parts) (h : fs.makeFrom p parts = .ok fs')
    (hq : (parts.foldl Place.step p).length < q.length) : fs'.at? q = fs.at? q := by
  induction parts generalizing fs p with
  | nil => cases h; rfl
  | cons part parts ih =>
    simp only [makeFrom] at h
    split at h
    case isTrue => cases h
    case isFalse =>
      cases h₁ : fs.makeFolder (p.step part) parts.isEmpty with
      | error e =>
        rw [h₁] at h
        cases h
      | ok fs₁ =>
        rw [h₁] at h
        have hrest : ".." ∉ parts := List.not_mem_of_not_mem_cons hup
        have hne : q ≠ p.step part := by
          rintro rfl
          have hle := (Place.prefix_foldl_step hrest (p.step part)).length_le
          rw [List.foldl_cons] at hq
          omega
        rw [ih hrest h hq, at?_of_makeFolder h₁ hne]

end Files

namespace Cache

variable {c : Cache} {fs fs' : Files} {k : Checksum} {code : Code} {codes : List Code}

/-! ## Loading -/

/-- The unit that a file of the cache records. -/
def recorded? (bytes : List UInt8) : Option Code :=
  (Pack.parse? bytes).bind (Code.ofRecord? Pack.nestingLimit)

/-- What is loaded from any bytes: the unit they record, if it is recorded for the checksum. -/
theorem load_of_read {bytes : List UInt8} (h : fs.read (c.pathOf k) = .ok bytes) :
    c.load fs k =
      match recorded? bytes with
      | none => .error (.corrupt (c.pathOf k))
      | some code => .ok (if code.checksum = k then some code else none) := by
  unfold recorded?
  cases hb : (Pack.parse? bytes).bind (Code.ofRecord? Pack.nestingLimit) <;> simp only [load, h, hb]

theorem load_of_missing (h : fs.read (c.pathOf k) = .error .missing) : c.load fs k = .ok none := by
  simp only [load, h]

/-- A unit is only ever loaded from bytes that record it, for the checksum it is loaded under. -/
theorem recorded_of_load (h : c.load fs k = .ok (some code)) :
    code.checksum = k ∧ ∃ bytes, fs.read (c.pathOf k) = .ok bytes ∧ recorded? bytes = some code := by
  cases hr : fs.read (c.pathOf k) with
  | error e =>
    simp only [load, hr] at h
    cases e <;> cases h
  | ok bytes =>
    rw [load_of_read hr] at h
    cases hb : recorded? bytes with
    | none =>
      simp only [hb] at h
      cases h
    | some found =>
      simp only [hb, Except.ok.injEq] at h
      split at h
      case isTrue hk =>
        cases h
        exact ⟨hk, bytes, rfl, hb⟩
      case isFalse => cases h

/-- In a folder that is there, what is loaded depends on what stands at the place of the unit. -/
theorem Open.load_congr (h : c.Open fs) (h' : c.Open fs') (hs : c.Short k)
    (hk : k.bytes.length = Checksum.size) (ha : fs'.at? (c.place k) = fs.at? (c.place k)) :
    c.load fs' k = c.load fs k := by
  have hread : fs'.read (c.pathOf k) = fs.read (c.pathOf k) := by
    simp only [Files.read, h.resolve_pathOf hs hk, h'.resolve_pathOf hs hk, bind, Except.bind, ha]
  simp only [load, hread]

/-! ## Storing one unit -/

/-- The folder of the cache is there, or nothing is in the way of making it, and the file system
takes the paths in it. -/
structure Usable (c : Cache) (fs : Files) : Prop where
  made : ∃ fs', fs.makeFolders c.folder = .ok fs'
  reached : c.Open fs ∨ ".." ∉ pathParts c.folder ∧ fs.Rooted
  short : ∀ ⦃k : Checksum⦄, k.bytes.length = Checksum.size → c.Short k

/-- The path of a folder may be as long as leaves room for a file in it. -/
theorem short_of_le (h : c.folder.utf8ByteSize + 1 + longestPart ≤ longestPath)
    (hk : k.bytes.length = Checksum.size) : c.Short k := by
  have hname := Checksum.utf8ByteSize_fileName hk
  have hsize : (joinPath c.folder k.fileName).utf8ByteSize ≤
      c.folder.utf8ByteSize + 1 + k.fileName.utf8ByteSize := by
    have hslash : "/".utf8ByteSize = 1 := by decide +kernel
    unfold joinPath
    split
    · omega
    · split
      · rw [String.utf8ByteSize_append]
        omega
      · rw [String.utf8ByteSize_append, String.utf8ByteSize_append]
        omega
  exact hsize.trans (by omega)

/-- Once the folder is made, each unit is where it was, and the same is loaded as before. -/
theorem Usable.open (h : c.Usable fs) :
    ∃ fs', fs.makeFolders c.folder = .ok fs' ∧ c.Open fs' ∧
      ∀ ⦃k : Checksum⦄, k.bytes.length = Checksum.size →
        fs'.at? (c.place k) = fs.at? (c.place k) ∧ c.load fs' k = c.load fs k := by
  obtain ⟨fs', hm⟩ := h.made
  obtain ⟨hg, ho', hl⟩ := open_of_makeFolders hm
  refine ⟨fs', hm, ho', fun k hk => ?_⟩
  by_cases ho : c.Open fs
  · rw [ho.makeFolders_eq hl] at hm
    cases hm
    exact ⟨rfl, rfl⟩
  obtain ho₁ | ⟨hup, hroot⟩ := h.reached
  · exact absurd ho₁ ho
  -- the folder is missing, so nothing is in it, neither now nor when it has just been made
  have hnone : fs.at? (c.place k) = none := by
    by_contra hne
    exact ho (hroot.folders hup ho' (hroot hne))
  have hnone' : fs'.at? (c.place k) = none := by
    rw [Files.makeFolders, if_neg (Nat.not_lt.mpr hl)] at hm
    rw [Files.at?_of_makeFrom hup hm ?_, hnone]
    simp [place, Place.ofPath]
  refine ⟨hnone'.trans hnone.symm, ?_⟩
  have hload' : c.load fs' k = .ok none :=
    load_of_missing (Files.read_of_missing (ho'.resolve_pathOf (h.short hk) hk) hnone')
  have hload : c.load fs k = .ok none := by
    obtain hr | hr := ho'.resolve_of_gains hg (h.short hk) hk
    · exact load_of_missing (Files.read_of_missing hr hnone)
    · exact load_of_missing (by rw [Files.read, hr]; rfl)
  rw [hload, hload']

/-- **One store**: it fails where a folder has taken the place of the unit. Otherwise the unit is in
the folder afterwards, and every other one is as it was. -/
theorem Usable.store_cases (h : c.Usable fs) (hk : code.checksum.bytes.length = Checksum.size) :
    (fs.at? (c.place code.checksum) = some .folder ∧
      c.store fs code = .error (.files (c.pathOf code.checksum) .isFolder)) ∨
    (fs.at? (c.place code.checksum) ≠ some .folder ∧
      ∃ fs', c.store fs code = .ok fs' ∧ c.Usable fs' ∧
        fs'.at? (c.place code.checksum) = some (.file code.toRecord.encode) ∧
        (code.Sized → c.load fs' code.checksum = .ok (some code)) ∧
        ∀ ⦃k : Checksum⦄, k.bytes.length = Checksum.size → k ≠ code.checksum →
          fs'.at? (c.place k) = fs.at? (c.place k) ∧ c.load fs' k = c.load fs k) := by
  obtain ⟨fs₁, hm, ho, hsame⟩ := h.open
  obtain ⟨-, -, hl⟩ := open_of_makeFolders hm
  have hr := ho.resolve_pathOf (h.short hk) hk
  have hat := (hsame hk).1
  by_cases hf : fs.at? (c.place code.checksum) = some .folder
  · refine .inl ⟨hf, ?_⟩
    have hw : fs₁.write (c.pathOf code.checksum) code.toRecord.encode = .error .isFolder := by
      rw [Files.write, hr]
      simp only [bind, Except.bind, hat, hf]
    simp only [store, hm, hw]
  have hn : fs₁.at? (c.place code.checksum) ≠ some .folder := by rwa [hat]
  have ho' : c.Open (fs₁.put (c.place code.checksum) (.file code.toRecord.encode)) := ho.put hn _
  have hself := fs₁.at?_put_self (c.place_ne_nil code.checksum) (.file code.toRecord.encode)
  refine .inr ⟨hf, _, ?_, ⟨⟨_, ho'.makeFolders_eq hl⟩, .inl ho', h.short⟩, hself, fun hz => ?_,
    fun k hk' hne => ?_⟩
  · simp only [store, hm, Files.write_of_notFolder hr hn]
  · rw [load_of_read (Files.read_of_file (ho'.resolve_pathOf (h.short hk) hk) hself), recorded?,
      Code.ofRecord?_encode hz hk]
    exact congrArg Except.ok (if_pos rfl)
  · have hplace : c.place k ≠ c.place code.checksum := fun he => hne (place_inj he)
    have hother := fs₁.at?_put_of_ne hplace (.file code.toRecord.encode)
    exact ⟨hother.trans (hsame hk').1,
      (ho.load_congr ho' (h.short hk') hk' hother).trans (hsame hk').2⟩

/-! ## Storing one unit after the other -/

/-- The files after units have been stored one after the other. A store that fails leaves them as
they were. -/
def stored (c : Cache) : List Code → Files → Files
  | [], fs => fs
  | code :: codes, fs =>
    match c.store fs code with
    | .ok fs' => c.stored codes fs'
    | .error _ => c.stored codes fs

/-- What the stores have answered. -/
def answers (c : Cache) : List Code → Files → List (Except CacheError Unit)
  | [], _ => []
  | code :: codes, fs =>
    match c.store fs code with
    | .ok fs' => .ok () :: c.answers codes fs'
    | .error e => .error e :: c.answers codes fs

/-- The last unit with a checksum. -/
def latest? (codes : List Code) (k : Checksum) : Option Code :=
  codes.reverse.find? fun code => code.checksum = k

theorem latest?_cons (code : Code) (codes : List Code) (k : Checksum) :
    latest? (code :: codes) k =
      (latest? codes k).or (if code.checksum = k then some code else none) := by
  rw [latest?, List.reverse_cons, List.find?_append, latest?, List.find?_singleton]
  simp only [decide_eq_true_eq]

/-- Folders stay where they have taken the place of a unit, and none are added. -/
theorem folder_iff (hself : fs'.at? (c.place code.checksum) = some (.file code.toRecord.encode))
    (hf : fs.at? (c.place code.checksum) ≠ some .folder)
    (hother : ∀ ⦃k : Checksum⦄, k.bytes.length = Checksum.size → k ≠ code.checksum →
      fs'.at? (c.place k) = fs.at? (c.place k))
    (hk : k.bytes.length = Checksum.size) :
    fs'.at? (c.place k) = some .folder ↔ fs.at? (c.place k) = some .folder := by
  by_cases he : k = code.checksum
  · subst he
    simp [hself, hf]
  · rw [hother hk he]

theorem checksum_of_latest? (h : latest? codes k = some code) : code.checksum = k := by
  simpa using List.find?_some h

theorem mem_of_latest? (h : latest? codes k = some code) : code ∈ codes :=
  List.mem_reverse.mp (List.mem_of_find?_eq_some h)

/-- What the stores answer: a folder in the place of a unit is in the way of it, and of nothing
else. -/
theorem Usable.answers_map (h : c.Usable fs)
    (hk : ∀ code ∈ codes, code.checksum.bytes.length = Checksum.size) :
    c.answers codes fs = codes.map fun code =>
      if fs.at? (c.place code.checksum) = some .folder then
        .error (.files (c.pathOf code.checksum) .isFolder)
      else .ok () := by
  induction codes generalizing fs with
  | nil => rfl
  | cons code codes ih =>
    obtain ⟨hk₁, hks⟩ := List.forall_mem_cons.mp hk
    rw [List.map_cons]
    obtain ⟨hf, hst⟩ | ⟨hf, fs', hst, h', hself, -, hother⟩ := h.store_cases hk₁
    · simp only [answers, hst, if_pos hf, ih h hks]
    · simp only [answers, hst, if_neg hf, ih h' hks]
      refine congrArg _ (List.map_congr_left fun other hmem => ?_)
      simp only [folder_iff hself hf (fun k hk hne => (hother hk hne).1) (hks other hmem)]

/-- What no store is about is left alone, and so is what a folder is in the way of. -/
theorem Usable.load_stored_of_none (h : c.Usable fs)
    (hk : ∀ code ∈ codes, code.checksum.bytes.length = Checksum.size)
    (hk' : k.bytes.length = Checksum.size)
    (hn : latest? codes k = none ∨ fs.at? (c.place k) = some .folder) :
    (c.stored codes fs).at? (c.place k) = fs.at? (c.place k) ∧
      c.load (c.stored codes fs) k = c.load fs k := by
  induction codes generalizing fs with
  | nil => exact ⟨rfl, rfl⟩
  | cons code codes ih =>
    obtain ⟨hk₁, hks⟩ := List.forall_mem_cons.mp hk
    have hn₁ : (latest? codes k = none ∧ k ≠ code.checksum) ∨
        fs.at? (c.place k) = some .folder := by
      refine hn.imp_left fun hn => ?_
      rw [latest?_cons, Option.or_eq_none_iff] at hn
      exact ⟨hn.1, fun he => by simp [he] at hn⟩
    obtain ⟨-, hst⟩ | ⟨hf, fs', hst, h', -, -, hother⟩ := h.store_cases hk₁
    · simp only [stored, hst]
      exact ih h hks (hn₁.imp_left And.left)
    · have hne : k ≠ code.checksum := by
        obtain ⟨-, hne⟩ | hfolder := hn₁
        · exact hne
        · exact fun he => hf (he ▸ hfolder)
      obtain ⟨hat, hload⟩ := hother hk' hne
      have hrest := ih h' hks (by rw [hat]; exact hn₁.imp_left And.left)
      simp only [stored, hst]
      exact ⟨hrest.1.trans hat, hrest.2.trans hload⟩

/-- The last unit with a checksum is the one that is loaded. -/
theorem Usable.load_stored (h : c.Usable fs)
    (hk : ∀ code ∈ codes, code.checksum.bytes.length = Checksum.size)
    (hk' : k.bytes.length = Checksum.size) (hl : latest? codes k = some code)
    (hf : fs.at? (c.place k) ≠ some .folder) (hz : code.Sized) :
    c.load (c.stored codes fs) k = .ok (some code) := by
  induction codes generalizing fs with
  | nil => cases hl
  | cons first codes ih =>
    obtain ⟨hk₁, hks⟩ := List.forall_mem_cons.mp hk
    rw [latest?_cons, Option.or_eq_some_iff] at hl
    obtain ⟨hfirst, hst⟩ | ⟨hfirst, fs', hst, h', hself, hload, hother⟩ := h.store_cases hk₁
    · simp only [stored, hst]
      obtain hl | ⟨-, hl⟩ := hl
      · exact ih h hks hl hf
      · split at hl
        case isTrue he => exact absurd (he ▸ hfirst) hf
        case isFalse => cases hl
    · have hf' : fs'.at? (c.place k) ≠ some .folder := by
        rwa [ne_eq, folder_iff hself hfirst (fun k hk hne => (hother hk hne).1) hk']
      simp only [stored, hst]
      obtain hl | ⟨hnone, hl⟩ := hl
      · exact ih h' hks hl hf'
      · split at hl
        case isTrue he =>
          cases hl
          subst he
          rw [(h'.load_stored_of_none hks hk' (.inl hnone)).2, hload hz]
        case isFalse => cases hl

/-! ## The map -/

/-- **The cache is a map**: a store is refused only where a folder has taken the place of the unit.
After any stores, the last unit with a checksum is the one that is loaded under it; under every other
checksum the same is loaded as before, from the same bytes. And from whatever bytes, a unit is loaded
under no other checksum than the one it is recorded for. -/
theorem exact_map (h : c.Usable fs)
    (hk : ∀ code ∈ codes, code.checksum.bytes.length = Checksum.size) :
    (c.answers codes fs = codes.map fun code =>
      if fs.at? (c.place code.checksum) = some .folder then
        .error (.files (c.pathOf code.checksum) .isFolder)
      else .ok ()) ∧
    (∀ k code, latest? codes k = some code → fs.at? (c.place k) ≠ some .folder → code.Sized →
      code.checksum = k ∧ c.load (c.stored codes fs) k = .ok (some code)) ∧
    (∀ k : Checksum, k.bytes.length = Checksum.size →
      latest? codes k = none ∨ fs.at? (c.place k) = some .folder →
      (c.stored codes fs).at? (c.place k) = fs.at? (c.place k) ∧
      c.load (c.stored codes fs) k = c.load fs k) ∧
    (∀ fs k bytes, fs.read (c.pathOf k) = .ok bytes →
      c.load fs k =
        match recorded? bytes with
        | none => .error (.corrupt (c.pathOf k))
        | some code => .ok (if code.checksum = k then some code else none)) ∧
    ∀ fs k code, c.load fs k = .ok (some code) → code.checksum = k ∧
      ∃ bytes, fs.read (c.pathOf k) = .ok bytes ∧ recorded? bytes = some code := by
  refine ⟨h.answers_map hk, fun k code hl hf hz => ?_, fun k hk' hn => h.load_stored_of_none hk hk' hn,
    fun fs k bytes hr => load_of_read hr, fun fs k code hl => recorded_of_load hl⟩
  obtain rfl := checksum_of_latest? hl
  exact ⟨rfl, h.load_stored hk (hk code (mem_of_latest? hl)) hl hf hz⟩

/-- A unit with a checksum of one byte over and over. -/
def unitOf (b : UInt8) (value : Int32) : Code := ⟨⟨.replicate 16 b⟩, [], [.copy value]⟩

/-- A cache with a damaged file for one checksum and a folder in the place of another one. -/
def littered : Files :=
  ⟨[(["cache"], .folder), (common.place ⟨.replicate 16 2⟩, .file [0]),
    (common.place ⟨.replicate 16 3⟩, .folder)]⟩

theorem usable_littered : common.Usable littered := by
  have hp : pathParts common.folder = ["cache"] := by decide +kernel
  have ho : common.Open littered := by
    have hs : Place.step [] "cache" = ["cache"] := by decide +kernel
    rw [Open, hp]
    refine ⟨rfl, by decide +kernel, ?_⟩
    rw [hs]
    rfl
  exact ⟨⟨_, ho.makeFolders_eq (by decide +kernel)⟩, .inl ho,
    fun k hk => short_of_le (by decide +kernel) hk⟩

/-- A unit is stored, stored anew, and read back; the damaged file stays damaged. -/
theorem exact_map_littered :
    common.answers [unitOf 1 0, unitOf 3 0, unitOf 1 (-1)] littered =
      [.ok (), .error (.files (common.pathOf ⟨.replicate 16 3⟩) .isFolder), .ok ()] ∧
    common.load (common.stored [unitOf 1 0, unitOf 3 0, unitOf 1 (-1)] littered)
      ⟨.replicate 16 1⟩ = .ok (some (unitOf 1 (-1))) ∧
    common.load (common.stored [unitOf 1 0, unitOf 3 0, unitOf 1 (-1)] littered)
      ⟨.replicate 16 2⟩ = .error (.corrupt (common.pathOf ⟨.replicate 16 2⟩)) := by
  have h₁ : littered.at? (common.place ⟨.replicate 16 1⟩) ≠ some .folder := by decide +kernel
  have h₃ : littered.at? (common.place ⟨.replicate 16 3⟩) = some .folder := by decide +kernel
  have hread : littered.read (common.pathOf ⟨.replicate 16 2⟩) = .ok [0] := by decide +kernel
  have hnone : recorded? [0] = none := by decide +kernel
  have hsize : ∀ code ∈ [unitOf 1 0, unitOf 3 0, unitOf 1 (-1)],
      code.checksum.bytes.length = Checksum.size := by decide
  obtain ⟨hanswers, hlast, hrest, hbytes, -⟩ := exact_map usable_littered hsize
  refine ⟨hanswers.trans ?_, (hlast _ _ (by decide) h₁ ⟨by decide, by decide, by decide⟩).2, ?_⟩
  · simp only [List.map_cons, List.map_nil, unitOf, if_neg h₁, if_pos h₃]
  · rw [(hrest _ (by decide) (.inl (by decide))).2, hbytes _ _ _ hread, hnone]

end Cache

end Dataflow
