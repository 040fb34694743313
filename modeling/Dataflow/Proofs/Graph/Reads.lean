import Dataflow.Proofs.Graph.Links

/-!
# What blocks read, and what a draft notes of it

* `Block.needs`: the values that a block reads, those of a function being what its body reads from
  around it;
* `Made`: a value of a level, by the block that makes it;
* `Draft.Reflects`: a draft has noted what its blocks read;
* **`Draft.Reflects.dependAll`**: noting further reads keeps this true.
-/

namespace Dataflow

mutual

/-- The values that a block reads; those of a function are what its body reads from around it. -/
def Block.needs : Block → List ValueId
  | .steps _ instructions => instructions.filterMap Instruction.operand?
  | .function _ ⟨first, _, blocks, _⟩ =>
    (Block.allNeeds blocks).filter fun id => 0 ≤ id ∧ id < first

/-- The values that blocks read. -/
def Block.allNeeds : List Block → List ValueId
  | [] => []
  | b :: bs => Block.needs b ++ Block.allNeeds bs

end

/-- Whether a block is a function. -/
def Block.isFunction : Block → Bool
  | .steps _ _ => false
  | .function _ _ => true

namespace Block

theorem mem_allNeeds {bs : List Block} {id : ValueId} :
    id ∈ allNeeds bs ↔ ∃ b ∈ bs, id ∈ b.needs := by
  induction bs with
  | nil => simp [allNeeds]
  | cons b bs ih => simp [allNeeds, ih]

theorem mem_needs_function {i id : ValueId} {g : Graph} :
    id ∈ (function i g).needs ↔ 0 ≤ id ∧ id < g.first ∧ ∃ b ∈ g.blocks, id ∈ b.needs := by
  obtain ⟨first, params, blocks, dependents⟩ := g
  rw [needs, List.mem_filter, mem_allNeeds, decide_eq_true_iff]
  exact ⟨fun h => ⟨h.2.1, h.2.2, h.1⟩, fun h => ⟨h.2.2, h.1, h.2.1⟩⟩

end Block

/-- A value that needs no block of a level: one that is built in, or a parameter. -/
def Ambient (first base id : ValueId) : Prop := id < 0 ∨ (first ≤ id ∧ id < base)

/-- Block `j` of a level makes a value. -/
def Made (first base id : ValueId) (j : Nat) : Prop :=
  ¬ Ambient first base id ∧ first ≤ id ∧ (id - base).toInt = j

theorem Made.unique {first base id : ValueId} {j k : Nat} (hj : Made first base id j)
    (hk : Made first base id k) : j = k := by
  have h := hj.2.2.symm.trans hk.2.2
  exact Int.ofNat.inj h

/-! ## Checked arithmetic -/

namespace ValueId

theorem plus_eq_ok {a b c : ValueId} :
    a.plus b = .ok c ↔ c = a + b ∧ (a + b).toInt = a.toInt + b.toInt := by
  unfold plus
  split
  case isTrue h => exact ⟨fun hc => ⟨(Except.ok.inj hc).symm, h⟩, fun hc => by rw [hc.1]⟩
  case isFalse h => exact ⟨(fun hc => by cases hc), fun hc => absurd hc.2 h⟩

theorem minus_eq_ok {a b c : ValueId} :
    a.minus b = .ok c ↔ c = a - b ∧ (a - b).toInt = a.toInt - b.toInt := by
  unfold minus
  split
  case isTrue h => exact ⟨fun hc => ⟨(Except.ok.inj hc).symm, h⟩, fun hc => by rw [hc.1]⟩
  case isFalse h => exact ⟨(fun hc => by cases hc), fun hc => absurd hc.2 h⟩

end ValueId

/-! ## Lists without repetitions, in rows -/

theorem mem_pushNew {α : Type} [BEq α] [LawfulBEq α] {xs : Array α} {x y : α} :
    x ∈ pushNew xs y ↔ x ∈ xs ∨ x = y := by
  unfold pushNew
  split
  case isTrue h =>
    refine ⟨.inl, fun hx => ?_⟩
    rcases hx with hx | rfl
    · exact hx
    · exact Array.contains_iff_mem.mp h
  case isFalse => exact Array.mem_push

/-- One more element in a row. -/
theorem mem_modify_pushNew {rows : Array (Array Nat)} {s t : Nat} (hs : s < rows.size) (j i : Nat) :
    i ∈ (rows.modify s (pushNew · t)).getD j #[] ↔ i ∈ rows.getD j #[] ∨ j = s ∧ i = t := by
  rw [Array.getD_eq_getD_getElem?, Array.getD_eq_getD_getElem?, Array.getElem?_modify]
  by_cases h : s = j
  · subst h
    rw [if_pos rfl, Array.getElem?_eq_getElem hs]
    simp [mem_pushNew]
  · simp [h, Ne.symm h]

namespace Draft

/-- Block `j` of the level makes a value. -/
def Makes (d : Draft) (id : ValueId) (j : Nat) : Prop := Made d.first d.base id j

/-- The blocks that wait for block `j`. -/
def row (d : Draft) (j : Nat) : Array Nat := d.dependents.getD j #[]

theorem origin_eq_ok {d : Draft} {id : ValueId} {position : Nat} {o : Origin}
    (h : d.origin id position = .ok o) :
    (o = .ambient ∧ Ambient d.first d.base id) ∨
    (o = .outer ∧ ¬ Ambient d.first d.base id ∧ id < d.first) ∨
    ∃ j, o = .block j ∧ d.Makes id j ∧ j < d.nextIndex := by
  unfold origin at h
  split at h
  case isTrue ha =>
    cases h
    exact .inl ⟨rfl, ha⟩
  case isFalse ha =>
    split at h
    case isTrue ho =>
      cases h
      exact .inr (.inl ⟨rfl, ha, ho⟩)
    case isFalse ho =>
      cases hd : id.minus d.base with
      | error e =>
        rw [hd] at h
        cases h
      | ok offset =>
        obtain ⟨rfl, -⟩ := ValueId.minus_eq_ok.mp hd
        rw [hd] at h
        change (if 0 ≤ (id - d.base).toInt ∧ (id - d.base).toInt < d.nextIndex then _ else _) = _ at h
        split at h
        case isTrue hi =>
          cases h
          refine .inr (.inr ⟨_, rfl, ⟨ha, Int32.not_lt.mp ho, ?_⟩, ?_⟩)
          · omega
          · omega
        case isFalse => cases h

/-- A draft has noted what its blocks read, `R i id` saying that block `i` reads `id`. -/
structure Reflects (d : Draft) (R : Nat → ValueId → Prop) : Prop where
  dependents_size : d.dependents.size = d.nextIndex
  links_size : d.links.size = d.functionCount
  captures_size : d.captures.size = d.functionCount
  row_iff : ∀ j i, i ∈ d.row j ↔
    i ≠ j ∧ (d.functionCount ≤ i ∨ d.functionCount ≤ j) ∧ ∃ id, R i id ∧ d.Makes id j
  link_iff : ∀ i j, j ∈ d.links.getD i #[] ↔
    i ≠ j ∧ i < d.functionCount ∧ j < d.functionCount ∧ ∃ id, R i id ∧ d.Makes id j
  capture_iff : ∀ i j, j ∈ d.captures.getD i #[] ↔
    i < d.functionCount ∧ d.functionCount ≤ j ∧ ∃ id, R i id ∧ d.Makes id j
  escaped_iff : ∀ id, id ∈ d.escaped ↔
    ¬ Ambient d.first d.base id ∧ id < d.first ∧ ∃ i, R i id
  made : ∀ i id, R i id → ¬ Ambient d.first d.base id → d.first ≤ id →
    ∃ j < d.nextIndex, d.Makes id j ∧ (d.functionCount ≤ i → j < i)

/-- One more value that a block reads. -/
def alsoReads (R : Nat → ValueId → Prop) (dst : Nat) (ids : List ValueId) : Nat → ValueId → Prop :=
  fun i id => R i id ∨ i = dst ∧ id ∈ ids

namespace Reflects

variable {d d' : Draft} {R : Nat → ValueId → Prop}

theorem congr {R' : Nat → ValueId → Prop} (h : d.Reflects R) (hR : ∀ i id, R i id ↔ R' i id) :
    d.Reflects R' := by
  have he : R = R' := by
    funext i id
    exact propext (hR i id)
  exact he ▸ h

/-- Only the noted parts of a draft matter. -/
theorem of_eq (h : d.Reflects R) (hf : d'.first = d.first) (hp : d'.params = d.params)
    (hc : d'.functionCount = d.functionCount) (hv : d'.values = d.values)
    (hd : d'.dependents = d.dependents) (hl : d'.links = d.links) (hs : d'.captures = d.captures)
    (he : d'.escaped = d.escaped) : d'.Reflects R := by
  have hb : d'.base = d.base := by rw [base, base, hf, hp]
  have hn : d'.nextIndex = d.nextIndex := by rw [nextIndex, nextIndex, hc, hv]
  constructor
  all_goals simp only [Makes, row, hf, hb, hc, hn, hd, hl, hs, he]
  · exact h.dependents_size
  · exact h.links_size
  · exact h.captures_size
  · exact h.row_iff
  · exact h.link_iff
  · exact h.capture_iff
  · exact h.escaped_iff
  · exact h.made

end Reflects

/-- Two drafts of one level, which may have noted different things. -/
structure SameLevel (d d' : Draft) : Prop where
  first : d'.first = d.first
  params : d'.params = d.params
  openedAt : d'.openedAt = d.openedAt
  functionCount : d'.functionCount = d.functionCount
  functions : d'.functions = d.functions
  values : d'.values = d.values
  pending : d'.pending = d.pending

namespace SameLevel

variable {d d' d'' : Draft}

theorem refl (d : Draft) : SameLevel d d := ⟨rfl, rfl, rfl, rfl, rfl, rfl, rfl⟩

theorem trans (h : SameLevel d d') (h' : SameLevel d' d'') : SameLevel d d'' :=
  ⟨h'.first.trans h.first, h'.params.trans h.params, h'.openedAt.trans h.openedAt,
    h'.functionCount.trans h.functionCount, h'.functions.trans h.functions,
    h'.values.trans h.values, h'.pending.trans h.pending⟩

theorem base (h : SameLevel d d') : d'.base = d.base := by
  rw [Draft.base, Draft.base, h.first, h.params]

theorem nextIndex (h : SameLevel d d') : d'.nextIndex = d.nextIndex := by
  rw [Draft.nextIndex, Draft.nextIndex, h.functionCount, h.values]

theorem makes (h : SameLevel d d') (id : ValueId) (j : Nat) : d'.Makes id j ↔ d.Makes id j := by
  rw [Makes, Makes, h.first, h.base]

end SameLevel

namespace Reflects

variable {d d' : Draft} {R : Nat → ValueId → Prop}

theorem exists_alsoReads {dst i j : Nat} {id : ValueId} :
    (∃ x, alsoReads R dst [id] i x ∧ d.Makes x j) ↔
      (∃ x, R i x ∧ d.Makes x j) ∨ i = dst ∧ d.Makes id j := by
  constructor
  · rintro ⟨x, hx | ⟨rfl, hx⟩, hm⟩
    · exact .inl ⟨x, hx, hm⟩
    · rw [List.mem_singleton] at hx
      exact .inr ⟨rfl, hx ▸ hm⟩
  · rintro (⟨x, hx, hm⟩ | ⟨rfl, hm⟩)
    · exact ⟨x, .inl hx, hm⟩
    · exact ⟨id, .inr ⟨rfl, by simp⟩, hm⟩

/-- A read that no block of the level has to serve. -/
theorem alsoReads_unserved (h : d.Reflects R) {dst : Nat} {id : ValueId}
    (hs : Ambient d.first d.base id) : d.Reflects (alsoReads R dst [id]) := by
  have hm (j : Nat) : ¬ d.Makes id j := fun hm => hm.1 hs
  refine ⟨h.dependents_size, h.links_size, h.captures_size, fun j i => ?_, fun i j => ?_,
    fun i j => ?_, fun x => ?_, fun i x hx ha hf => ?_⟩
  · rw [exists_alsoReads, h.row_iff]
    simp [hm]
  · rw [exists_alsoReads, h.link_iff]
    simp [hm]
  · rw [exists_alsoReads, h.capture_iff]
    simp [hm]
  · rw [h.escaped_iff]
    refine and_congr_right fun ha => and_congr_right fun _ => exists_congr fun i => ?_
    refine ⟨.inl, fun hx => hx.resolve_right ?_⟩
    rintro ⟨-, hx⟩
    rw [List.mem_singleton] at hx
    exact ha (hx ▸ hs)
  · refine h.made i x (hx.resolve_right ?_) ha hf
    rintro ⟨-, hx⟩
    rw [List.mem_singleton] at hx
    exact ha (hx ▸ hs)

/-- A read that a level around has to serve. -/
theorem alsoReads_outer (h : d.Reflects R) {dst : Nat} {id : ValueId}
    (ha : ¬ Ambient d.first d.base id) (ho : id < d.first) :
    { d with escaped := pushNew d.escaped id }.Reflects (alsoReads R dst [id]) := by
  have hm (j : Nat) : ¬ d.Makes id j := fun hm => Int32.not_lt.mpr hm.2.1 ho
  have he {i j : Nat} : (∃ x, alsoReads R dst [id] i x ∧ d.Makes x j) ↔ ∃ x, R i x ∧ d.Makes x j := by
    rw [exists_alsoReads]
    simp [hm]
  refine ⟨h.dependents_size, h.links_size, h.captures_size, fun j i => ?_, fun i j => ?_,
    fun i j => ?_, fun x => ?_, fun i x hx ha' hf => ?_⟩
  · exact (h.row_iff j i).trans (by rw [← he]; rfl)
  · exact (h.link_iff i j).trans (by rw [← he]; rfl)
  · exact (h.capture_iff i j).trans (by rw [← he]; rfl)
  · rw [mem_pushNew, h.escaped_iff]
    constructor
    · rintro (⟨ha, ho, i, hx⟩ | rfl)
      · exact ⟨ha, ho, i, .inl hx⟩
      · exact ⟨ha, ho, dst, .inr ⟨rfl, by simp⟩⟩
    · rintro ⟨ha, ho, i, hx | ⟨-, hx⟩⟩
      · exact .inl ⟨ha, ho, i, hx⟩
      · exact .inr (List.mem_singleton.mp hx)
  · refine h.made i x (hx.resolve_right ?_) ha' hf
    rintro ⟨-, hx⟩
    rw [List.mem_singleton] at hx
    exact Int32.not_lt.mpr hf (hx ▸ ho)

/-- A read of a value that a block of the level makes, noted in the right place. -/
theorem alsoReads_block (h : d.Reflects R) {dst src : Nat} {id : ValueId} (hl : SameLevel d d')
    (he : d'.escaped = d.escaped) (hm : d.Makes id src) (hn : src < d.nextIndex)
    (hdst : dst < d.functionCount ∨ dst = d.nextIndex)
    (hsizes : d'.dependents.size = d.dependents.size ∧ d'.links.size = d.links.size ∧
      d'.captures.size = d.captures.size)
    (hrow : ∀ j i, i ∈ d'.row j ↔ i ∈ d.row j ∨
      (j = src ∧ i = dst ∧ i ≠ j ∧ (d.functionCount ≤ i ∨ d.functionCount ≤ j)))
    (hlink : ∀ i j, j ∈ d'.links.getD i #[] ↔ j ∈ d.links.getD i #[] ∨
      (j = src ∧ i = dst ∧ i ≠ j ∧ i < d.functionCount ∧ j < d.functionCount))
    (hcapture : ∀ i j, j ∈ d'.captures.getD i #[] ↔ j ∈ d.captures.getD i #[] ∨
      (j = src ∧ i = dst ∧ i < d.functionCount ∧ d.functionCount ≤ j)) :
    d'.Reflects (alsoReads R dst [id]) := by
  have hsrc (j : Nat) : d.Makes id j ↔ j = src := ⟨fun hj => hj.unique hm, fun hj => hj ▸ hm⟩
  refine ⟨?_, ?_, ?_, fun j i => ?_, fun i j => ?_, fun i j => ?_, fun x => ?_,
    fun i x hx ha hf => ?_⟩
  · rw [hsizes.1, hl.nextIndex, h.dependents_size]
  · rw [hsizes.2.1, hl.functionCount, h.links_size]
  · rw [hsizes.2.2, hl.functionCount, h.captures_size]
  · simp only [hl.makes, hl.functionCount]
    rw [exists_alsoReads, hsrc, hrow, h.row_iff]
    grind
  · simp only [hl.makes, hl.functionCount]
    rw [exists_alsoReads, hsrc, hlink, h.link_iff]
    grind
  · simp only [hl.makes, hl.functionCount]
    rw [exists_alsoReads, hsrc, hcapture, h.capture_iff]
    grind
  · rw [he, hl.first, hl.base, h.escaped_iff]
    refine and_congr_right fun _ => and_congr_right fun ho => exists_congr fun i => ?_
    refine ⟨.inl, fun hx => hx.resolve_right ?_⟩
    rintro ⟨-, hx⟩
    rw [List.mem_singleton] at hx
    exact Int32.not_lt.mpr hm.2.1 (hx ▸ ho)
  · simp only [hl.makes, hl.functionCount, hl.nextIndex]
    rw [hl.first, hl.base] at ha
    rw [hl.first] at hf
    rcases hx with hx | ⟨rfl, hx⟩
    · exact h.made i x hx ha hf
    · rw [List.mem_singleton] at hx
      subst hx
      refine ⟨src, hn, hm, fun hi => ?_⟩
      omega

/-- Noting one read. -/
theorem depend (h : d.Reflects R) {id : ValueId} {dst position : Nat}
    (hdst : dst < d.functionCount ∨ dst = d.nextIndex) (hd : d.depend id dst position = .ok d') :
    d'.Reflects (alsoReads R dst [id]) ∧ SameLevel d d' := by
  unfold Draft.depend at hd
  cases ho : d.origin id position with
  | error e =>
    rw [ho] at hd
    cases hd
  | ok o =>
    rw [ho] at hd
    rcases origin_eq_ok ho with ⟨rfl, ha⟩ | ⟨rfl, ha, hf⟩ | ⟨src, rfl, hm, hn⟩
    · cases hd
      exact ⟨h.alsoReads_unserved ha, .refl d⟩
    · cases hd
      exact ⟨h.alsoReads_outer ha hf, ⟨rfl, rfl, rfl, rfl, rfl, rfl, rfl⟩⟩
    · replace hd : (if src = dst then pure d
        else if dst < d.functionCount then
          if src < d.functionCount then
            pure { d with links := d.links.modify dst (pushNew · src) }
          else pure ({ d with captures := d.captures.modify dst (pushNew · src) }.addEdge src dst)
        else pure (d.addEdge src dst) : Except GraphError Draft) = .ok d' := hd
      have hs : src < d.dependents.size := by rw [h.dependents_size]; exact hn
      split at hd
      case isTrue he =>
        cases hd
        refine ⟨h.alsoReads_block (.refl d) rfl hm hn hdst ⟨rfl, rfl, rfl⟩ ?_ ?_ ?_, .refl d⟩
        all_goals grind
      case isFalse hne =>
        split at hd
        case isTrue hfun =>
          split at hd
          case isTrue hsib =>
            cases hd
            have hl : SameLevel d { d with links := d.links.modify dst (pushNew · src) } :=
              ⟨rfl, rfl, rfl, rfl, rfl, rfl, rfl⟩
            have hlink := mem_modify_pushNew (t := src) (h.links_size ▸ hfun)
            refine ⟨h.alsoReads_block hl rfl hm hn hdst ⟨rfl, Array.size_modify .., rfl⟩ ?_
              (fun i j => (hlink i j).trans ?_) ?_, hl⟩
            · intro j i
              show i ∈ d.row j ↔ _
              grind
            · grind
            · intro i j
              show j ∈ d.captures.getD i #[] ↔ _
              grind
          case isFalse hval =>
            cases hd
            have hcapture := mem_modify_pushNew (t := src) (h.captures_size ▸ hfun)
            have hrow := mem_modify_pushNew (t := dst) hs
            refine ⟨h.alsoReads_block ⟨rfl, rfl, rfl, rfl, rfl, rfl, rfl⟩ rfl hm hn hdst
              ⟨Array.size_modify .., rfl, Array.size_modify ..⟩
              (fun j i => (hrow j i).trans ?_) (fun i j => ?_) (fun i j => (hcapture i j).trans ?_),
              ⟨rfl, rfl, rfl, rfl, rfl, rfl, rfl⟩⟩
            · show i ∈ d.row j ∨ _ ↔ _
              grind
            · show j ∈ d.links.getD i #[] ↔ _
              grind
            · grind
        case isFalse hfun =>
          cases hd
          have hrow := mem_modify_pushNew (t := dst) hs
          refine ⟨h.alsoReads_block ⟨rfl, rfl, rfl, rfl, rfl, rfl, rfl⟩ rfl hm hn hdst
            ⟨Array.size_modify .., rfl, rfl⟩
            (fun j i => (hrow j i).trans ?_) (fun i j => ?_) (fun i j => ?_),
            ⟨rfl, rfl, rfl, rfl, rfl, rfl, rfl⟩⟩
          · show i ∈ d.row j ∨ _ ↔ _
            grind
          · show j ∈ d.links.getD i #[] ↔ _
            grind
          · show j ∈ d.captures.getD i #[] ↔ _
            grind

/-- Noting a list of reads. -/
theorem dependAll (h : d.Reflects R) {ids : List ValueId} {dst position : Nat}
    (hdst : dst < d.functionCount ∨ dst = d.nextIndex)
    (hd : d.dependAll dst position ids = .ok d') :
    d'.Reflects (alsoReads R dst ids) ∧ SameLevel d d' := by
  induction ids generalizing d R with
  | nil =>
    cases hd
    refine ⟨h.congr fun i id => ?_, .refl _⟩
    simp [alsoReads]
  | cons id ids ih =>
    rw [Draft.dependAll] at hd
    cases h₁ : d.depend id dst position with
    | error e =>
      rw [h₁] at hd
      cases hd
    | ok d₁ =>
      rw [h₁] at hd
      obtain ⟨hr, hl⟩ := h.depend hdst h₁
      obtain ⟨hr', hl'⟩ := ih hr (by rwa [hl.functionCount, hl.nextIndex]) hd
      refine ⟨hr'.congr fun i x => ?_, hl.trans hl'⟩
      simp only [alsoReads, List.mem_cons, List.not_mem_nil, or_false]
      grind

end Reflects

end Draft

end Dataflow
