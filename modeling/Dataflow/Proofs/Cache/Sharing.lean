import Dataflow.Cache.Compiler
import Dataflow.Proofs.Cache.Files
import Dataflow.Proofs.Code.Codec

/-!
# Compilers that share a cache

Whatever compilers use one cache, and in whatever order, each of them gets what it would get without
it: a record that can be read under the checksum of a source has been stored for that source, and
every compiler that uses the cache would have compiled the same unit.

* `Code.ofRecord?_toRecord`: records are read back;
* `Cache.place`, `Cache.resolve_pathOf`: where the unit of a checksum is kept;
* `Cache.Holds`: the cache has no units but those of their sources;
* `Compiler.answers`: compiling one source after the other;
* **`Cache.Shared.answers_eq`**: the cache makes no difference.
-/

namespace Dataflow

/-! ## Records -/

theorem Checksum.length_ofSource (source : String) : (ofSource source).bytes.length = size := by
  rw [ofSource, List.length_take, Sha256.digest]
  simp [size]

theorem Checksum.ofPack?_ofBytes {checksum : Checksum} (h : checksum.bytes.length = size) :
    ofPack? (.ofBytes checksum.bytes) = some checksum := by
  have hb := Pack.bytes?_ofBytes checksum.bytes
  rw [Pack.ofBytes] at hb
  simp only [ofPack?, Pack.ofBytes, Pack.bytesOfSize?, hb, Option.bind_eq_bind, Option.bind_some,
    if_pos h, Option.map_some]

namespace Code

theorem ofRecord?_toRecord {c : Code} (h : c.checksum.bytes.length = Checksum.size) (room : Nat) :
    ofRecord? room c.toRecord = some c := by
  have hf := Pack.fields?_record room [("checksum", .ofBytes c.checksum.bytes), ("bytecode", c.pack)]
    (by simp)
  simp only [List.map_cons, List.map_nil] at hf
  rw [ofRecord?, toRecord, hf]
  simp [ofPack?_pack, Checksum.ofPack?_ofBytes h, withChecksum]

theorem Sized.fits_toRecord {c : Code} (h : c.Sized) (hc : c.checksum.bytes.length = Checksum.size) :
    c.toRecord.Fits 5 := by
  refine Pack.fits_record (by decide : 2 < 256 ^ 4) ?_
  simp only [List.forall_mem_cons, List.not_mem_nil, false_imp_iff, implies_true, and_true]
  exact ⟨⟨by decide +kernel, (Pack.fits_ofBytes (by rw [hc]; decide)).mono (by decide)⟩,
    by decide +kernel, h.fits_pack⟩

/-- The record of a unit is read back. -/
theorem ofRecord?_encode {c : Code} (h : c.Sized) (hc : c.checksum.bytes.length = Checksum.size) :
    (Pack.parse? c.toRecord.encode).bind (ofRecord? Pack.nestingLimit) = some c := by
  have hfits := h.fits_toRecord hc
  rw [← List.append_nil c.toRecord.encode,
    Pack.parse?_encode hfits.1 (Nat.lt_of_le_of_lt hfits.2 (by decide))]
  exact ofRecord?_toRecord hc _

end Code

/-! ## Names of files -/

theorem hexValue?_hexChar : ∀ n < 16, hexValue? (hexChar n) = some n := by decide

theorem hexChar_ne_slash : ∀ n < 16, hexChar n ≠ '/' := by decide

theorem utf8Size_hexChar : ∀ n < 16, (hexChar n).utf8Size = 1 := by decide

theorem bytesOfHex?_hexText (bytes : List UInt8) :
    bytesOfHex? (hexText bytes).toList = some bytes := by
  rw [hexText, String.toList_ofList]
  induction bytes with
  | nil => rfl
  | cons b bytes ih =>
    have hb := b.toNat_lt
    have hsum : 16 * (b.toNat / 16) + b.toNat % 16 = b.toNat := Nat.div_add_mod ..
    rw [List.flatMap_cons, List.cons_append, List.cons_append, List.nil_append, bytesOfHex?,
      hexValue?_hexChar _ (by omega), hexValue?_hexChar _ (by omega), ih]
    simp only [Option.bind_eq_bind, Option.bind_some, hsum, UInt8.ofNat_toNat]
    rfl

theorem Checksum.hex_inj {a b : Checksum} (h : a.hex = b.hex) : a = b := by
  have hb : some a.bytes = some b.bytes := by
    rw [← bytesOfHex?_hexText, ← bytesOfHex?_hexText, ← hex, ← hex, h]
  cases a
  cases b
  simpa using hb

/-- The name of the file with the unit of a checksum. -/
def Checksum.fileName (k : Checksum) : String := k.hex ++ ".wfc"

theorem Checksum.slash_notMem_fileName (k : Checksum) : '/' ∉ k.fileName.toList := by
  simp only [fileName, hex, hexText, String.toList_append, String.toList_ofList, List.mem_append,
    List.mem_flatMap, List.mem_cons, List.not_mem_nil, or_false, not_or, not_exists, not_and]
  refine ⟨fun b _ => ?_, by decide +kernel⟩
  have hb := b.toNat_lt
  exact ⟨(hexChar_ne_slash _ (by omega)).symm, (hexChar_ne_slash _ (by omega)).symm⟩

theorem Checksum.fileName_inj {a b : Checksum} (h : a.fileName = b.fileName) : a = b := by
  have hl := congrArg String.toList h
  rw [fileName, fileName, String.toList_append, String.toList_append,
    List.append_cancel_right_eq] at hl
  exact hex_inj (String.toList_inj.mp hl)

theorem Checksum.utf8ByteSize_fileName {k : Checksum} (h : k.bytes.length = size) :
    k.fileName.utf8ByteSize ≤ longestPart := by
  have hhex (bytes : List UInt8) : (hexText bytes).utf8ByteSize = 2 * bytes.length := by
    rw [hexText, String.utf8ByteSize_ofList]
    induction bytes with
    | nil => rfl
    | cons b bytes ih =>
      have hb := b.toNat_lt
      rw [List.flatMap_cons, List.cons_append, List.cons_append, List.nil_append,
        String.utf8Len_cons, String.utf8Len_cons, ih, utf8Size_hexChar _ (by omega),
        utf8Size_hexChar _ (by omega), List.length_cons]
      omega
  rw [fileName, String.utf8ByteSize_append, hex, hhex, h]
  decide +kernel

/-! ## Units -/

theorem Environment.checksum_of_compile {e : Environment} {source : String} {code : Code}
    (h : e.compile source = .ok code) : code.checksum = .ofSource source := by
  unfold Environment.compile at h
  cases hr : (Node.parse source).mapError Failure.source with
  | error failure => simp [hr, bind, Except.bind] at h
  | ok root =>
    cases hc : (root.compile e.idOf?).mapError Failure.compile with
    | error failure => simp [hr, hc, bind, Except.bind] at h
    | ok code' =>
      simp only [hr, hc, bind, Except.bind, pure, Except.pure, Except.ok.injEq] at h
      rw [← h]
      rfl

/-- Compiling depends on the names of an environment and not on its values. -/
theorem Environment.compile_prelude (identity identity' : Nat) (source : String) :
    (prelude identity).compile source = (prelude identity').compile source := by
  have hid : (prelude identity).idOf? = (prelude identity').idOf? := rfl
  rw [compile, compile, hid]

/-! ## Places -/

namespace Cache

variable {c : Cache} {k : Checksum} {fs fs' : Files}

/-- The place of the unit with a checksum. -/
def place (c : Cache) (k : Checksum) : Place := Place.ofPath c.folder ++ [k.fileName]

theorem place_inj {k' : Checksum} (h : c.place k = c.place k') : k = k' :=
  Checksum.fileName_inj (List.cons.inj (List.append_cancel_left h)).1

theorem place_ne_nil (c : Cache) (k : Checksum) : c.place k ≠ [] := by simp [place]

theorem step_fileName (p : Place) (k : Checksum) : p.step k.fileName = p ++ [k.fileName] := by
  have hne {s : String} (hs : s.length < 4) : k.fileName ≠ s := by
    rintro rfl
    rw [Checksum.fileName, String.length_append] at hs
    have : ".wfc".length = 4 := by decide +kernel
    omega
  rw [Place.step, if_neg, if_neg (hne (by decide +kernel))]
  rintro (h | h)
  · exact hne (by decide +kernel) h
  · exact hne (by decide +kernel) h

/-- The path of a checksum: the parts of the folder's path, which lead to the same place with or
without an empty one at their end, and the name of the file. -/
theorem pathParts_pathOf (c : Cache) (k : Checksum) :
    ∃ parts, pathParts (c.pathOf k) = parts ++ [k.fileName] ∧
      parts.foldl Place.step [] = Place.ofPath c.folder ∧
      ∀ {fs : Files}, fs.Folders [] (pathParts c.folder) → fs.Folders [] parts := by
  obtain ⟨parts, hp, hf | hf⟩ := @pathParts_joinPath c.folder _ k.slash_notMem_fileName
  · exact ⟨parts, hp, by rw [Place.ofPath, hf], fun h => hf ▸ h⟩
  · refine ⟨parts, hp, ?_, fun h => .of_append_empty (hf ▸ h)⟩
    rw [Place.ofPath, hf, List.foldl_append]
    rfl

/-- A folder that is there. -/
def Open (c : Cache) (fs : Files) : Prop := fs.Folders [] (pathParts c.folder)

/-- A path that the file system takes. -/
def Short (c : Cache) (k : Checksum) : Prop := (c.pathOf k).utf8ByteSize ≤ longestPath

theorem Open.resolve_pathOf (h : c.Open fs) (hs : c.Short k) (hk : k.bytes.length = Checksum.size) :
    fs.resolve (c.pathOf k) = .ok (c.place k) := by
  obtain ⟨parts, hp, hplace, hparts⟩ := c.pathParts_pathOf k
  rw [Files.resolve, if_neg (Nat.not_lt.mpr hs), hp,
    (hparts h).follow_eq (Checksum.utf8ByteSize_fileName hk), hplace, step_fileName]
  rfl

theorem Open.resolve_of_gains (h : c.Open fs') (hg : fs.Gains fs') (hs : c.Short k)
    (hk : k.bytes.length = Checksum.size) :
    fs.resolve (c.pathOf k) = .ok (c.place k) ∨ fs.resolve (c.pathOf k) = .error .missing := by
  obtain ⟨parts, hp, hplace, hparts⟩ := c.pathParts_pathOf k
  have hfollow := (hparts h).follow_of_gains hg (Checksum.utf8ByteSize_fileName hk)
  rw [hplace, step_fileName] at hfollow
  rwa [Files.resolve, if_neg (Nat.not_lt.mpr hs), hp]

theorem Open.makeFolders_eq (h : c.Open fs) (hl : c.folder.utf8ByteSize ≤ longestPath) :
    fs.makeFolders c.folder = .ok fs := by
  rw [Files.makeFolders, if_neg (Nat.not_lt.mpr hl), h.makeFrom_eq]

theorem open_of_makeFolders (h : fs.makeFolders c.folder = .ok fs') :
    fs.Gains fs' ∧ c.Open fs' ∧ c.folder.utf8ByteSize ≤ longestPath := by
  unfold Files.makeFolders at h
  split at h
  case isTrue => cases h
  case isFalse hl =>
    obtain ⟨hg, ho⟩ := Files.folders_of_makeFrom fs.at?_nil h
    exact ⟨hg, ho, Nat.le_of_not_lt hl⟩

/-! ## What the cache holds -/

/-- What programs find by name where nothing has been registered. -/
def standard : Environment := .prelude 0

/-- The folder can be made, the files of these sources can stand in it, and whatever unit one of the
files records for its source is the unit of that source. -/
structure Holds (c : Cache) (sources : List String) (fs : Files) : Prop where
  short : ∀ source ∈ sources, c.Short (.ofSource source)
  folder : ∃ fs', fs.makeFolders c.folder = .ok fs' ∧
    ∀ source ∈ sources, fs'.at? (c.place (.ofSource source)) ≠ some .folder
  right : ∀ source ∈ sources, ∀ bytes code,
    fs.at? (c.place (.ofSource source)) = some (.file bytes) →
    (Pack.parse? bytes).bind (Code.ofRecord? Pack.nestingLimit) = some code →
    code.checksum = .ofSource source → standard.compile source = .ok code

variable {sources : List String} {source : String}

theorem Holds.notFolder (h : c.Holds sources fs) (hs : source ∈ sources) :
    fs.at? (c.place (.ofSource source)) ≠ some .folder := by
  obtain ⟨fs', hm, hn⟩ := h.folder
  exact fun hf => hn source hs ((open_of_makeFolders hm).1.folder hf)

/-- What is found under the checksum of a source is the unit of the source; nothing else goes wrong
than that a file is damaged. -/
theorem Holds.load_cases (h : c.Holds sources fs) (hs : source ∈ sources) :
    c.load fs (.ofSource source) = .ok none ∨
      c.load fs (.ofSource source) = .error (.corrupt (c.pathOf (.ofSource source))) ∨
      ∃ code, c.load fs (.ofSource source) = .ok (some code) ∧
        standard.compile source = .ok code := by
  obtain ⟨fs', hm, -⟩ := h.folder
  obtain ⟨hg, ho, -⟩ := open_of_makeFolders hm
  have hk := Checksum.length_ofSource source
  obtain hr | hr := ho.resolve_of_gains hg (h.short source hs) hk
  · cases ha : fs.at? (c.place (.ofSource source)) with
    | none => exact .inl (by simp only [load, Files.read_of_missing hr ha])
    | some entry =>
      cases entry with
      | folder => exact absurd ha (h.notFolder hs)
      | file bytes =>
        have hread := Files.read_of_file hr ha
        cases hb : (Pack.parse? bytes).bind (Code.ofRecord? Pack.nestingLimit) with
        | none => exact .inr (.inl (by simp only [load, hread, hb]))
        | some code =>
          by_cases hc : code.checksum = .ofSource source
          · exact .inr (.inr ⟨code, by simp only [load, hread, hb, if_pos hc],
              h.right source hs bytes code ha hb hc⟩)
          · exact .inl (by simp only [load, hread, hb, if_neg hc])
  · have hread : fs.read (c.pathOf (.ofSource source)) = .error .missing := by
      rw [Files.read, hr]
      rfl
    exact .inl (by simp only [load, hread])

/-- Storing the unit of a source succeeds. The unit can be loaded then, and the cache still holds
nothing else. -/
theorem Holds.store (h : c.Holds sources fs) (hs : source ∈ sources)
    (hd : ∀ other ∈ sources, Checksum.ofSource other = .ofSource source → other = source)
    {code : Code} (hc : standard.compile source = .ok code) (hz : code.Sized) :
    ∃ fs', c.store fs code = .ok fs' ∧ c.load fs' (.ofSource source) = .ok (some code) ∧
      c.Holds sources fs' := by
  obtain ⟨fs', hm, hn⟩ := h.folder
  obtain ⟨hg, ho, hl⟩ := open_of_makeFolders hm
  have hk := Checksum.length_ofSource source
  have hsum : code.checksum = .ofSource source := Environment.checksum_of_compile hc
  have hwrite := Files.write_of_notFolder (ho.resolve_pathOf (h.short source hs) hk) (hn source hs)
    code.toRecord.encode
  have hother {other : String} (hmem : other ∈ sources) (hne : other ≠ source) :
      c.place (.ofSource other) ≠ c.place (.ofSource source) :=
    fun he => hne (hd other hmem (place_inj he))
  have hdecode := Code.ofRecord?_encode hz (hsum ▸ hk)
  have ho' : c.Open (fs'.put (c.place (.ofSource source)) (.file code.toRecord.encode)) :=
    ho.put (hn source hs) _
  refine ⟨fs'.put (c.place (.ofSource source)) (.file code.toRecord.encode), ?_, ?_, h.short,
    ⟨_, ho'.makeFolders_eq hl, fun other hmem => ?_⟩, ?_⟩
  · simp only [Cache.store, hm, hsum, hwrite]
  · have hread := Files.read_of_file (ho'.resolve_pathOf (h.short source hs) hk)
      (fs'.at?_put_self (c.place_ne_nil _) _)
    simp only [load, hread, hdecode, if_pos hsum]
  · by_cases he : other = source
    · rw [he, fs'.at?_put_self (c.place_ne_nil _)]
      simp
    · rw [fs'.at?_put_of_ne (hother hmem he)]
      exact hn other hmem
  · intro other hmem bytes found ha hb hf
    by_cases he : other = source
    · subst he
      rw [fs'.at?_put_self (c.place_ne_nil _)] at ha
      cases ha
      rw [hdecode] at hb
      cases hb
      exact hc
    · rw [fs'.at?_put_of_ne (hother hmem he)] at ha
      obtain hs' | ⟨-, hs'⟩ := hg (c.place (.ofSource other))
      · exact h.right other hmem bytes found (hs' ▸ ha) hb hf
      · rw [hs'] at ha
        cases ha

end Cache

/-! ## Compiling -/

namespace Compiler

/-- The compiler without its cache. -/
def uncached (c : Compiler) : Compiler := { c with cache? := none }

/-- What compiling a source gives, and the files afterwards. -/
def answer (c : Compiler) (source : String) (fs : Files) : Except Failure Program × Files :=
  match c.compile source fs with
  | .ok p fs => (.ok p, fs)
  | .error e fs => (.error e, fs)

/-- What compiling sources one after the other gives. -/
def answers : List (Compiler × String) → Files → List (Except Failure Program)
  | [], _ => []
  | (c, source) :: calls, fs =>
    (c.answer source fs).1 :: answers calls (c.answer source fs).2

/-- The program of a source text, without any cache. -/
def anew (c : Compiler) (source : String) : Except Failure Program := do
  (Program.ofCode (← c.environment.compile source) c.environment).mapError .run

variable {c : Compiler} {source : String} {fs fs' : Files}

theorem answer_of_unit {code : Code} (h : c.unit source fs = .ok code fs') :
    c.answer source fs = ((Program.ofCode code c.environment).mapError .run, fs') := by
  cases hp : Program.ofCode code c.environment with
  | ok p =>
    have hcompile : c.compile source fs = .ok p fs' := by
      simp only [compile, bind, EStateM.bind, h, hp]
      rfl
    rw [answer, hcompile]
    rfl
  | error e =>
    have hcompile : c.compile source fs = .error (.run e) fs' := by
      simp only [compile, bind, EStateM.bind, h, hp]
      rfl
    rw [answer, hcompile]
    rfl

theorem answer_of_unit_ok {code : Code} (h : c.unit source fs = .ok code fs')
    (hc : c.environment.compile source = .ok code) :
    c.answer source fs = (c.anew source, fs') := by
  rw [answer_of_unit h, anew, hc]
  rfl

theorem answer_of_unit_error {e : Failure} (h : c.unit source fs = .error e fs')
    (hc : c.environment.compile source = .error e) :
    c.answer source fs = (c.anew source, fs') := by
  have hcompile : c.compile source fs = .error e fs' := by
    simp only [compile, bind, EStateM.bind, h]
  rw [answer, hcompile, anew, hc]
  rfl

/-- Where the cache is not used, its files are not touched. -/
theorem answer_of_not_usable (h : c.usableCache? = none) :
    c.answer source fs = (c.anew source, fs) := by
  cases hc : c.environment.compile source with
  | ok code => exact answer_of_unit_ok (by simp only [unit, h, compileAnew, hc]; rfl) hc
  | error e => exact answer_of_unit_error (by simp only [unit, h, compileAnew, hc]; rfl) hc

theorem answer_uncached (c : Compiler) (source : String) (fs : Files) :
    c.uncached.answer source fs = (c.anew source, fs) :=
  answer_of_not_usable (by unfold usableCache?; split <;> rfl)

variable {cache : Cache} {sources : List String}

theorem cached?_of_ok {code? : Option Code} (h : cache.load fs (.ofSource source) = .ok code?) :
    cached? cache source fs = .ok code? fs := by
  simp only [cached?, bind, EStateM.bind, get, getThe, MonadStateOf.get, EStateM.get, h]
  rfl

theorem cached?_of_corrupt {path : String}
    (h : cache.load fs (.ofSource source) = .error (.corrupt path)) :
    cached? cache source fs = .ok none fs := by
  simp only [cached?, bind, EStateM.bind, get, getThe, MonadStateOf.get, EStateM.get, h]
  rfl

theorem keep_of_ok {code : Code} (h : cache.store fs code = .ok fs') :
    keep cache code fs = .ok () fs' := by
  simp only [keep, bind, EStateM.bind, get, getThe, MonadStateOf.get, EStateM.get, h]
  rfl

theorem unit_of_hit {code : Code} (hu : c.usableCache? = some cache)
    (h : cache.load fs (.ofSource source) = .ok (some code)) : c.unit source fs = .ok code fs := by
  simp only [unit, hu, bind, EStateM.bind, cached?_of_ok h]
  rfl

/-- A compiler that uses the cache gets what it would compile. Afterwards the unit is in the cache,
which still holds nothing else. -/
theorem answer_of_usable (hu : c.usableCache? = some cache)
    (he : c.environment.compile source = Cache.standard.compile source)
    (h : cache.Holds sources fs) (hs : source ∈ sources)
    (hd : ∀ other ∈ sources, Checksum.ofSource other = .ofSource source → other = source)
    (hz : ∀ code, Cache.standard.compile source = .ok code → code.Sized) :
    ∃ fs', c.answer source fs = (c.anew source, fs') ∧ cache.Holds sources fs' ∧
      ∀ code, Cache.standard.compile source = .ok code →
        cache.load fs' (.ofSource source) = .ok (some code) := by
  have hmiss (hl : cached? cache source fs = .ok none fs) :
      ∃ fs', c.answer source fs = (c.anew source, fs') ∧ cache.Holds sources fs' ∧
        ∀ code, Cache.standard.compile source = .ok code →
          cache.load fs' (.ofSource source) = .ok (some code) := by
    cases hc : c.environment.compile source with
    | error e =>
      refine ⟨fs, answer_of_unit_error ?_ hc, h, fun code hs => ?_⟩
      case refine_2 =>
        rw [← he, hc] at hs
        cases hs
      simp only [unit, hu, bind, EStateM.bind, hl, compileAnew, hc]
      rfl
    | ok code =>
      obtain ⟨fs', hst, hload, hh⟩ := h.store hs hd (he ▸ hc) (hz code (he ▸ hc))
      refine ⟨fs', answer_of_unit_ok ?_ hc, hh, fun code' hs => ?_⟩
      case refine_2 =>
        rw [← he, hc] at hs
        cases hs
        exact hload
      simp only [unit, hu, bind, EStateM.bind, hl, compileAnew, hc, pure, EStateM.pure,
        keep_of_ok hst]
  obtain hl | hl | ⟨code, hl, hc⟩ := h.load_cases hs
  · exact hmiss (cached?_of_ok hl)
  · exact hmiss (cached?_of_corrupt hl)
  · refine ⟨fs, answer_of_unit_ok (unit_of_hit hu hl) (he.trans hc), h, fun code' hs => ?_⟩
    rw [hc] at hs
    cases hs
    exact hl

end Compiler

/-! ## Sharing -/

/-- Compilers that share a cache, with the sources that they compile one after the other, and the
files before. Whoever may use the cache has the standard environment, whatever the identity of its
library; the file system takes the folder and the files in it; different sources have different
checksums, their units fit the format; and none of the files records a unit for the source it is
named for. -/
structure Cache.Shared (cache : Cache) (calls : List (Compiler × String)) (fs : Files) : Prop where
  only : ∀ call ∈ calls, call.1.cache? = none ∨ call.1.cache? = some cache
  standard : ∀ call ∈ calls, call.1.usableCache? = some cache →
    ∃ identity, call.1.environment = .prelude identity
  distinct : ∀ call ∈ calls, ∀ other ∈ calls,
    Checksum.ofSource other.2 = .ofSource call.2 → other.2 = call.2
  sized : ∀ call ∈ calls, ∀ code, Cache.standard.compile call.2 = .ok code → code.Sized
  short : ∀ call ∈ calls, cache.Short (.ofSource call.2)
  folder : ∃ fs', fs.makeFolders cache.folder = .ok fs' ∧
    ∀ call ∈ calls, fs'.at? (cache.place (.ofSource call.2)) ≠ some .folder
  stale : ∀ call ∈ calls, ∀ bytes code,
    fs.at? (cache.place (.ofSource call.2)) = some (.file bytes) →
    (Pack.parse? bytes).bind (Code.ofRecord? Pack.nestingLimit) = some code →
    code.checksum ≠ .ofSource call.2

namespace Cache.Shared

variable {cache : Cache} {calls : List (Compiler × String)} {fs : Files}

theorem holds (h : cache.Shared calls fs) : cache.Holds (calls.map (·.2)) fs := by
  obtain ⟨fs', hm, hn⟩ := h.folder
  refine ⟨?_, ⟨fs', hm, ?_⟩, ?_⟩
  · intro source hs
    obtain ⟨call, hc, rfl⟩ := List.mem_map.mp hs
    exact h.short call hc
  · intro source hs
    obtain ⟨call, hc, rfl⟩ := List.mem_map.mp hs
    exact hn call hc
  · intro source hs bytes code ha hb hf
    obtain ⟨call, hc, rfl⟩ := List.mem_map.mp hs
    exact absurd hf (h.stale call hc bytes code ha hb)

/-- Whoever may use a cache may use this one. -/
theorem usableCache?_eq (h : cache.Shared calls fs) {call : Compiler × String} (hc : call ∈ calls) :
    call.1.usableCache? = none ∨ call.1.usableCache? = some cache := by
  unfold Compiler.usableCache?
  split
  · exact .inl rfl
  · exact h.only call hc

/-- One call: the answer is that of the compiler without the cache. -/
theorem answer_eq (h : cache.Shared calls fs) {call : Compiler × String} (hc : call ∈ calls)
    {fs' : Files} (hh : cache.Holds (calls.map (·.2)) fs') :
    ∃ fs'', call.1.answer call.2 fs' = (call.1.anew call.2, fs'') ∧
      cache.Holds (calls.map (·.2)) fs'' := by
  rcases h.usableCache?_eq hc with hu | hu
  · exact ⟨fs', Compiler.answer_of_not_usable hu, hh⟩
  · obtain ⟨identity, he⟩ := h.standard call hc hu
    have hsame : call.1.environment.compile call.2 = Cache.standard.compile call.2 := by
      rw [he]
      exact Environment.compile_prelude identity 0 call.2
    have hdistinct : ∀ source ∈ calls.map (·.2),
        Checksum.ofSource source = .ofSource call.2 → source = call.2 := by
      intro source hs hk
      obtain ⟨other, ho, rfl⟩ := List.mem_map.mp hs
      exact h.distinct call hc other ho hk
    obtain ⟨fs'', ha, hh, -⟩ := Compiler.answer_of_usable hu hsame hh (List.mem_map_of_mem hc)
      hdistinct (h.sized call hc)
    exact ⟨fs'', ha, hh⟩

/-- A compiler without the standard environment, or without a cache, neither looks at the files nor
changes them. -/
theorem answer_of_foreign (h : cache.Shared calls fs) {call : Compiler × String} (hc : call ∈ calls)
    (hf : call.1.cache? = none ∨ ∀ identity, call.1.environment ≠ .prelude identity)
    (fs' : Files) : call.1.answer call.2 fs' = ((call.1.uncached.answer call.2 fs).1, fs') := by
  have hnone : call.1.usableCache? = none := by
    refine (h.usableCache?_eq hc).resolve_right fun hu => ?_
    rcases hf with hf | hf
    · unfold Compiler.usableCache? at hu
      split at hu
      · cases hu
      · cases hf.symm.trans hu
    · obtain ⟨identity, he⟩ := h.standard call hc hu
      exact hf identity he
  rw [Compiler.answer_of_not_usable hnone, Compiler.answer_uncached]

/-- **A shared cache makes no difference**: whichever compilers use it and whatever they compile one
after the other, each gets what it would get without the cache. Only those with the standard
environment look at it or write to it. -/
theorem answers_eq (h : cache.Shared calls fs) :
    Compiler.answers calls fs = (calls.map fun call => (call.1.uncached.answer call.2 fs).1) ∧
    ∀ call ∈ calls, (call.1.cache? = none ∨ ∀ identity, call.1.environment ≠ .prelude identity) →
      ∀ fs', call.1.answer call.2 fs' = ((call.1.uncached.answer call.2 fs).1, fs') := by
  refine ⟨?_, fun call hc hf => h.answer_of_foreign hc hf⟩
  have run (rest : List (Compiler × String)) (hr : ∀ call ∈ rest, call ∈ calls) {fs' : Files}
      (hh : cache.Holds (calls.map (·.2)) fs') :
      Compiler.answers rest fs' = rest.map fun call => call.1.anew call.2 := by
    induction rest generalizing fs' with
    | nil => rfl
    | cons call rest ih =>
      obtain ⟨fs'', ha, hh⟩ := h.answer_eq (hr call List.mem_cons_self) hh
      rw [Compiler.answers, ha, List.map_cons,
        ih (fun call hc => hr call (List.mem_cons_of_mem _ hc)) hh]
  simp only [run calls (fun _ hc => hc) h.holds, Compiler.answer_uncached]

end Cache.Shared

/-! ## Cases

The environment without entries passes for the standard one: nothing has been registered with it.
-/

namespace Cache

/-- A cache in the folder `cache`. -/
def common : Cache := ⟨"cache"⟩

/-- The source `true` as a tree. -/
def trueNode : Node := .list ⟨0, 4⟩ [.ident ⟨0, 4⟩ "true"]

/-- The unit of the source `true`. -/
def trueCode : Code := ⟨.ofSource "true", [], [.copy (-1)]⟩

theorem parse_true : Node.parse "true" = .ok trueNode := by cbv

theorem eq_ok_of_toOption {ε α : Type} {x : Except ε α} {a : α} (h : x.toOption = some a) :
    x = .ok a := by
  cases x with
  | error e => cases h
  | ok b => exact congrArg _ (Option.some.inj h)

theorem compile_true : standard.compile "true" = .ok trueCode := by
  have hc : trueNode.compile standard.idOf? = .ok ⟨.zero, [], [.copy (-1)]⟩ :=
    eq_ok_of_toOption (by decide +kernel)
  rw [Environment.compile, parse_true]
  simp only [Except.mapError, bind, Except.bind, hc]
  rfl

theorem sized_true : trueCode.Sized := ⟨by decide, by decide, by decide⟩

theorem makeFolders_common : Files.empty.makeFolders common.folder = .ok ⟨[(["cache"], .folder)]⟩ := by
  have hp : pathParts "cache" = ["cache"] := by decide +kernel
  have hs : Place.step [] "cache" = ["cache"] := by decide +kernel
  rw [Files.makeFolders, if_neg (by decide +kernel), common, hp, Files.makeFrom,
    if_neg (by decide +kernel)]
  simp only [hs]
  rfl

/-- A compiler with the standard environment under some identity, and the source `true`. -/
def trueCall (identity : Nat) : Compiler × String := (⟨.prelude identity, some common⟩, "true")

/-- A compiler with one name more, and the same source. -/
def guestCall : Compiler × String :=
  (⟨⟨(Environment.prelude 0).entries ++ [("seven", .int 7)], (Environment.prelude 0).standardCount⟩,
    some common⟩, "true")

/-- A compiler without any names and without a cache, and the same source. -/
def bareCall : Compiler × String := (⟨.empty, none⟩, "true")

/-- Compilers of the source `true` share the cache as long as whoever may use it has the standard
environment. -/
theorem shared_true {calls : List (Compiler × String)} (hs : ∀ call ∈ calls, call.2 = "true")
    (ho : ∀ call ∈ calls, call.1.cache? = none ∨ call.1.cache? = some common)
    (he : ∀ call ∈ calls, call.1.usableCache? = some common →
      ∃ identity, call.1.environment = .prelude identity) : common.Shared calls .empty where
  only := ho
  standard := he
  distinct call hc other hother _ := (hs other hother).trans (hs call hc).symm
  sized call hc code h := by
    rw [hs call hc] at h
    cases compile_true.symm.trans h
    exact sized_true
  short call hc := by
    rw [hs call hc, Short]
    decide +kernel
  folder := by
    have hn : (⟨[(["cache"], .folder)]⟩ : Files).at? (common.place (.ofSource "true")) ≠
        some .folder := by decide +kernel
    refine ⟨_, makeFolders_common, fun call hc => ?_⟩
    rw [hs call hc]
    exact hn
  stale call hc bytes code ha := by
    have hn : Files.empty.at? (common.place (.ofSource call.2)) = none := by
      rw [Files.at?, if_neg (by simpa using common.place_ne_nil _)]
      rfl
    rw [hn] at ha
    cases ha

/-- The first compiler leaves the unit behind and the last one finds it; the two between them neither
look at it nor touch it. -/
theorem answers_eq_true :
    Compiler.answers [trueCall 0, guestCall, bareCall, trueCall 1] .empty =
      ([trueCall 0, guestCall, bareCall, trueCall 1].map fun call =>
        (call.1.uncached.answer call.2 .empty).1) ∧
    ∀ fs', guestCall.1.answer guestCall.2 fs' =
        ((guestCall.1.uncached.answer guestCall.2 .empty).1, fs') ∧
      bareCall.1.answer bareCall.2 fs' =
        ((bareCall.1.uncached.answer bareCall.2 .empty).1, fs') := by
  have hhost : guestCall.1.environment.hasHostEntries = true := by decide
  have hguest (identity : Nat) : guestCall.1.environment ≠ .prelude identity := by
    intro he
    rw [he] at hhost
    cases hhost
  have hshared : common.Shared [trueCall 0, guestCall, bareCall, trueCall 1] .empty := by
    refine shared_true (by simp [trueCall, guestCall, bareCall])
      (by simp [trueCall, guestCall, bareCall]) ?_
    simp only [List.forall_mem_cons, List.not_mem_nil, false_imp_iff, implies_true, and_true]
    refine ⟨fun _ => ⟨0, rfl⟩, fun hu => ?_, fun hu => ?_, fun _ => ⟨1, rfl⟩⟩
    · rw [Compiler.usableCache?, hhost] at hu
      cases hu
    · cases hu
  obtain ⟨hanswers, hforeign⟩ := hshared.answers_eq
  exact ⟨hanswers, fun fs' => ⟨hforeign guestCall (by simp) (.inr hguest) fs',
    hforeign bareCall (by simp) (.inl rfl) fs'⟩⟩

/-- A compiler without any names, and the source `true`. -/
def namelessCall : Compiler × String := (⟨.empty, some common⟩, "true")

/-- Without any names, `true` cannot be compiled. -/
theorem anew_nameless : ∃ e, namelessCall.1.anew namelessCall.2 = .error (.compile e) := by
  have hc : (trueNode.compile Environment.empty.idOf?).toOption = none := by decide +kernel
  cases he : trueNode.compile Environment.empty.idOf? with
  | ok code =>
    rw [he] at hc
    cases hc
  | error e =>
    refine ⟨e, ?_⟩
    have hcompile : Environment.empty.compile "true" = .error (.compile e) := by
      rw [Environment.compile, parse_true]
      simp only [Except.mapError, bind, Except.bind, he]
    rw [namelessCall, Compiler.anew, hcompile]
    rfl

/-- The compiler without any names takes what another one has left in the cache. -/
theorem answer_nameless {fs : Files} (h : common.load fs (.ofSource "true") = .ok (some trueCode))
    (e : CompileError) : (namelessCall.1.answer namelessCall.2 fs).1 ≠ .error (.compile e) := by
  have hunit : namelessCall.1.unit namelessCall.2 fs = .ok trueCode fs :=
    Compiler.unit_of_hit rfl h
  rw [Compiler.answer_of_unit hunit]
  cases Program.ofCode trueCode namelessCall.1.environment with
  | ok p => exact fun he => by cases he
  | error e' => exact fun he => by cases he

/-- **With the empty environment the cache is not transparent**: a source that cannot be compiled
there passes once another compiler has left its unit behind. -/
theorem answers_ne_nameless : Compiler.answers [trueCall 0, namelessCall] .empty ≠
    [trueCall 0, namelessCall].map fun call => (call.1.uncached.answer call.2 .empty).1 := by
  obtain ⟨fs, hfirst, -, hload⟩ :
      ∃ fs, (trueCall 0).1.answer "true" .empty = ((trueCall 0).1.anew "true", fs) ∧
        common.Holds ["true"] fs ∧ ∀ code, standard.compile "true" = .ok code →
          common.load fs (.ofSource "true") = .ok (some code) := by
    have hshared : common.Shared [trueCall 0] .empty := by
      refine shared_true (by simp [trueCall]) (by simp [trueCall]) fun call hc _ => ?_
      obtain rfl := List.mem_singleton.mp hc
      exact ⟨0, rfl⟩
    refine Compiler.answer_of_usable rfl rfl hshared.holds List.mem_cons_self ?_ ?_
    · exact fun other ho _ => List.mem_singleton.mp ho
    · intro code hc
      cases compile_true.symm.trans hc
      exact sized_true
  obtain ⟨e, he⟩ := anew_nameless
  have hsecond : (trueCall 0).1.answer (trueCall 0).2 .empty =
      ((trueCall 0).1.anew (trueCall 0).2, fs) := hfirst
  intro heq
  rw [Compiler.answers, hsecond] at heq
  simp only [Compiler.answers, List.map_cons, List.map_nil, List.cons.injEq, and_true,
    Compiler.answer_uncached, true_and, he] at heq
  exact answer_nameless (hload _ compile_true) e heq

end Cache

end Dataflow
