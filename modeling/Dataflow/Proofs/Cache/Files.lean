import Mathlib
import Dataflow.Cache.Files

/-!
# Folders that have been made

Making folders leaves what is there alone. Afterwards each path below the folder leads to a place
in it, and files can be put there without getting in the way of one another.

* `Files.at?_put_self`, `at?_put_of_ne`: what stands where after a change;
* `Files.read_of_file`, `write_of_notFolder`: reading and writing by place;
* `Files.Gains`: some folders more, all else unchanged;
* `Files.Folders`: a path that leads from folder to folder;
* **`Files.folders_of_makeFrom`**: so does a path whose folders have been made;
* `pathParts_joinPath`: the parts of a path below a folder.
-/

namespace Dataflow

namespace Files

variable {fs fs' : Files} {p q : Place} {parts : List String}

/-! ## What stands where -/

@[simp]
theorem at?_nil (fs : Files) : fs.at? [] = some .folder := rfl

theorem at?_put_self (fs : Files) (hp : p ≠ []) (e : FileEntry) : (fs.put p e).at? p = some e := by
  simp [at?, put, hp]

theorem lookup_filter_of_ne (entries : List (Place × FileEntry)) (h : q ≠ p) :
    (entries.filter fun entry => entry.1 != p).lookup q = entries.lookup q := by
  induction entries with
  | nil => rfl
  | cons entry entries ih =>
    obtain ⟨r, e⟩ := entry
    by_cases hr : r = p
    · have hq : (q == r) = false := by simpa [hr] using h
      simp [hr, List.lookup_cons, hr ▸ hq, ih]
    · simp [hr, List.lookup_cons, ih]

theorem at?_put_of_ne (fs : Files) (h : q ≠ p) (e : FileEntry) : (fs.put p e).at? q = fs.at? q := by
  have hq : (q == p) = false := by simpa using h
  simp only [at?, put, List.lookup_cons, hq, lookup_filter_of_ne _ h]

theorem read_of_missing {path : String} (hr : fs.resolve path = .ok p) (hp : fs.at? p = none) :
    fs.read path = .error .missing := by
  rw [read, hr]
  simp only [bind, Except.bind, hp]

theorem read_of_file {path : String} {bytes : List UInt8} (hr : fs.resolve path = .ok p)
    (hp : fs.at? p = some (.file bytes)) : fs.read path = .ok bytes := by
  rw [read, hr]
  simp only [bind, Except.bind, hp]

theorem write_of_notFolder {path : String} (hr : fs.resolve path = .ok p)
    (hp : fs.at? p ≠ some .folder) (bytes : List UInt8) :
    fs.write path bytes = .ok (fs.put p (.file bytes)) := by
  rw [write, hr]
  simp only [bind, Except.bind]

/-! ## Making folders -/

/-- There may be folders where nothing was; all else is as it was. -/
def Gains (fs fs' : Files) : Prop :=
  ∀ p, fs'.at? p = fs.at? p ∨ fs.at? p = none ∧ fs'.at? p = some .folder

theorem Gains.refl (fs : Files) : fs.Gains fs := fun _ => .inl rfl

theorem Gains.trans {fs'' : Files} (h : fs.Gains fs') (h' : fs'.Gains fs'') : fs.Gains fs'' := by
  intro p
  obtain he | ⟨hn, hf⟩ := h p
  · rw [← he]
    exact h' p
  · obtain he' | ⟨hn', -⟩ := h' p
    · exact .inr ⟨hn, he'.trans hf⟩
    · rw [hf] at hn'
      cases hn'

theorem Gains.folder (h : fs.Gains fs') (hp : fs.at? p = some .folder) :
    fs'.at? p = some .folder := by
  obtain he | ⟨hn, -⟩ := h p
  · rw [he, hp]
  · rw [hn] at hp
    cases hp

theorem gains_of_makeFolder {last : Bool} (h : fs.makeFolder p last = .ok fs') :
    fs.Gains fs' ∧ fs'.at? p = some .folder := by
  unfold makeFolder at h
  split at h
  case h_1 hn =>
    cases h
    have hp : p ≠ [] := by
      rintro rfl
      cases hn
    refine ⟨fun q => ?_, fs.at?_put_self hp .folder⟩
    by_cases hq : q = p
    · subst hq
      exact .inr ⟨hn, fs.at?_put_self hp .folder⟩
    · exact .inl (fs.at?_put_of_ne hq .folder)
  case h_2 hf =>
    cases h
    exact ⟨.refl fs, hf⟩
  case h_3 => cases h

/-- A path whose parts lead from one folder to the next. -/
def Folders (fs : Files) : Place → List String → Prop
  | p, [] => fs.at? p = some .folder
  | p, part :: parts =>
    fs.at? p = some .folder ∧ part.utf8ByteSize ≤ longestPart ∧ fs.Folders (p.step part) parts

/-- Folders that have been made can be followed. -/
theorem folders_of_makeFrom (hp : fs.at? p = some .folder) (h : fs.makeFrom p parts = .ok fs') :
    fs.Gains fs' ∧ fs'.Folders p parts := by
  induction parts generalizing fs p with
  | nil =>
    cases h
    exact ⟨.refl _, hp⟩
  | cons part parts ih =>
    simp only [makeFrom] at h
    split at h
    case isTrue => cases h
    case isFalse hlong =>
      cases h₁ : fs.makeFolder (p.step part) parts.isEmpty with
      | error e =>
        rw [h₁] at h
        cases h
      | ok fs₁ =>
        rw [h₁] at h
        obtain ⟨hg₁, hf₁⟩ := gains_of_makeFolder h₁
        obtain ⟨hg, hf⟩ := ih hf₁ h
        exact ⟨hg₁.trans hg, (hg₁.trans hg).folder hp, Nat.le_of_not_lt hlong, hf⟩

namespace Folders

theorem start (h : fs.Folders p parts) : fs.at? p = some .folder := by
  cases parts with
  | nil => exact h
  | cons part parts => exact h.1

theorem last (h : fs.Folders p parts) : fs.at? (parts.foldl Place.step p) = some .folder := by
  induction parts generalizing p with
  | nil => exact h
  | cons part parts ih => exact ih h.2.2

/-- Folders that are there are not made again. -/
theorem makeFrom_eq (h : fs.Folders p parts) : fs.makeFrom p parts = .ok fs := by
  induction parts generalizing p with
  | nil => rfl
  | cons part parts ih =>
    obtain ⟨-, hlong, h⟩ := h
    have hmake : fs.makeFolder (p.step part) parts.isEmpty = .ok fs := by
      rw [makeFolder, h.start]
    simp only [makeFrom, if_neg (Nat.not_lt.mpr hlong), hmake]
    exact ih h

/-- A file that is put where no folder stands leaves a path of folders as it is. -/
theorem put (h : fs.Folders p parts) (hq : fs.at? q ≠ some .folder) (e : FileEntry) :
    (fs.put q e).Folders p parts := by
  have keep {r : Place} (hr : fs.at? r = some .folder) : (fs.put q e).at? r = some .folder := by
    rw [fs.at?_put_of_ne (fun he => hq (by rw [← he, hr])), hr]
  induction parts generalizing p with
  | nil => exact keep h
  | cons part parts ih => exact ⟨keep h.1, h.2.1, ih h.2.2⟩

/-- Before its folders are made, a path below them leads to the same place or to nothing. -/
theorem follow_of_gains (h : fs'.Folders p parts) (hg : fs.Gains fs') {name : String}
    (hn : name.utf8ByteSize ≤ longestPart) :
    fs.follow p (parts ++ [name]) = .ok ((parts.foldl Place.step p).step name) ∨
      fs.follow p (parts ++ [name]) = .error .missing := by
  -- where the followed path leads, there is a folder later and so a folder or nothing now
  have now {r : Place} (hr : fs'.at? r = some .folder) :
      fs.at? r = some .folder ∨ fs.at? r = none := by
    obtain he | ⟨hn, -⟩ := hg r
    · exact .inl (he ▸ hr)
    · exact .inr hn
  induction parts generalizing p with
  | nil =>
    obtain hf | hf := now h
    · rw [List.nil_append, follow, hf]
      exact .inl (if_neg (Nat.not_lt.mpr hn))
    · rw [List.nil_append, follow, hf]
      exact .inr rfl
  | cons part parts ih =>
    obtain hf | hf := now h.1
    · rw [List.cons_append, follow, hf]
      simp only [if_neg (Nat.not_lt.mpr h.2.1)]
      exact ih h.2.2
    · rw [List.cons_append, follow, hf]
      exact .inr rfl

/-- A path below folders leads to a place in them. -/
theorem follow_eq (h : fs.Folders p parts) {name : String} (hn : name.utf8ByteSize ≤ longestPart) :
    fs.follow p (parts ++ [name]) = .ok ((parts.foldl Place.step p).step name) := by
  induction parts generalizing p with
  | nil =>
    rw [List.nil_append, follow, show fs.at? p = some .folder from h]
    exact if_neg (Nat.not_lt.mpr hn)
  | cons part parts ih =>
    rw [List.cons_append, follow, h.1]
    simp only [if_neg (Nat.not_lt.mpr h.2.1)]
    exact ih h.2.2

/-- An empty part at the end of a path leads nowhere else. -/
theorem of_append_empty (h : fs.Folders p (parts ++ [""])) : fs.Folders p parts := by
  induction parts generalizing p with
  | nil => exact h.1
  | cons part parts ih => exact ⟨h.1, h.2.1, ih h.2.2⟩

end Folders

end Files

/-! ## Paths below a folder -/

theorem startsWith_append {s : String} (hs : s ≠ "") (t : String) :
    (s ++ t).startsWith '/' = s.startsWith '/' := by
  rw [Bool.eq_iff_iff, String.startsWith_char_iff_exists_append,
    String.startsWith_char_iff_exists_append]
  constructor
  · rintro ⟨u, hu⟩
    obtain ⟨c, cs, hc⟩ := List.exists_cons_of_ne_nil (fun h => hs (String.toList_eq_nil_iff.mp h))
    have hu := congrArg String.toList hu
    rw [String.toList_append, hc, String.toList_append, String.toList_singleton] at hu
    have hhead : c = '/' := (List.cons.inj hu).1
    exact ⟨String.ofList cs, String.toList_inj.mp (by simp [hc, hhead])⟩
  · rintro ⟨u, rfl⟩
    exact ⟨u ++ t, String.append_assoc⟩

/-- The parts of a path below a folder: those of the folder, but for an empty one at their end, and
the name. -/
theorem pathParts_joinPath {folder name : String} (hn : '/' ∉ name.toList) :
    ∃ parts, pathParts (joinPath folder name) = parts ++ [name] ∧
      (pathParts folder = parts ∨ pathParts folder = parts ++ [""]) := by
  have hname : (name.toList.splitOn '/').map String.ofList = [name] := by
    rw [List.splitOn_eq_singleton hn]
    simp
  unfold joinPath
  split
  case isTrue he =>
    have hf : folder = "" := by simpa using he
    subst hf
    refine ⟨[], ?_, .inr (by decide +kernel)⟩
    have hs : name.startsWith '/' = false := by
      rw [Bool.eq_false_iff, ne_eq, String.startsWith_char_iff_exists_append]
      rintro ⟨t, rfl⟩
      simp at hn
    rw [pathParts, hname, hs]
    rfl
  case isFalse he =>
    have hf : folder ≠ "" := by simpa using he
    split
    case isTrue hs =>
      obtain ⟨t, ht⟩ := String.endsWith_char_iff_exists_append.mp hs
      refine ⟨(if folder.startsWith '/' then ["/"] else []) ++
        (t.toList.splitOn '/').map String.ofList, ?_, .inr ?_⟩
      · have hl : (folder ++ name).toList = t.toList ++ '/' :: name.toList := by
          rw [ht]
          simp
        rw [pathParts, startsWith_append hf, hl, List.splitOn_append_cons_self, List.map_append,
          hname, List.append_assoc]
      · have hl : folder.toList = t.toList ++ ['/'] := by
          rw [ht]
          simp
        rw [pathParts, hl, List.splitOn_append_cons_self, List.map_append, List.append_assoc]
        rfl
    case isFalse hs =>
      refine ⟨pathParts folder, ?_, .inl rfl⟩
      have hl : (folder ++ "/" ++ name).toList = folder.toList ++ '/' :: name.toList := by simp
      rw [pathParts, String.append_assoc, startsWith_append hf, ← String.append_assoc, hl,
        List.splitOn_append_cons_self, List.map_append, hname, pathParts, List.append_assoc]

end Dataflow
