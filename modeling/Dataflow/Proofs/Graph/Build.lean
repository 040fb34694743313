import Dataflow.Proofs.Graph.Reads

/-!
# What a built graph is like

Every level of a built graph lists its functions first, and every block waits for all that it can
come to read: a value block for what it reads and, where it reads a function, for all functions that
can be reached from there; a function block for the values that it or a function reachable from it
reads.

* `Graph.Reads`, `Graph.Reaches`: reading inside a level, and what functions reach through siblings;
* `Graph.WellBuilt`: what holds of a level;
* `Draft.Takes`: a draft takes instructions, function bodies as a whole;
* **`Graph.built_of_build`**: all levels of a graph that was built are well built.
-/

namespace Dataflow

open Relation

namespace Graph

/-- How many functions a level begins with. -/
def functionCount (g : Graph) : Nat := (g.blocks.takeWhile Block.isFunction).length

/-- Block `j` makes a value. -/
def Makes (g : Graph) (id : ValueId) (j : Nat) : Prop := Made g.first g.base id j

/-- Block `i` reads what block `j` makes. -/
def Reads (g : Graph) (i j : Nat) : Prop :=
  ∃ b, g.blocks[i]? = some b ∧ ∃ id ∈ b.needs, g.Makes id j

/-- Function `i` reads function `j`. -/
def Links (g : Graph) (i j : Nat) : Prop :=
  i < g.functionCount ∧ j < g.functionCount ∧ g.Reads i j

/-- A call of function `i` can lead to one of function `j`. -/
def Reaches (g : Graph) : Nat → Nat → Prop := ReflTransGen g.Links

/-- What holds of a level that was built. -/
structure WellBuilt (g : Graph) : Prop where
  dependents_length : g.dependents.length = g.blocks.length
  id_eq : ∀ {i b}, g.blocks[i]? = some b → b.id = g.base + Int32.ofNat i
  isFunction_iff : ∀ {i b}, g.blocks[i]? = some b → (b.isFunction = true ↔ i < g.functionCount)
  /-- What is read from this level is there, and value blocks read only what stands before them. -/
  made : ∀ {i b id}, g.blocks[i]? = some b → id ∈ b.needs → ¬ Ambient g.first g.base id →
    g.first ≤ id → ∃ j < g.blocks.length, g.Makes id j ∧ (g.functionCount ≤ i → j < i)
  /-- A function body goes on from the number its level has reached, and reads nothing later. -/
  body_first : ∀ {i id body}, g.blocks[i]? = some (.function id body) →
    ∃ v, g.functionCount ≤ v ∧ v ≤ g.blocks.length ∧ body.first = g.base + Int32.ofNat v ∧
      ∀ j, g.Reads i j → j < v
  waiting_iff : ∀ {j i}, i ∈ g.waiting j ↔ i ≠ j ∧
    (g.functionCount ≤ i ∧ g.Reads i j ∨
      g.functionCount ≤ i ∧ j < g.functionCount ∧
        (∃ f, f < g.functionCount ∧ g.Reads i f ∧ g.Reaches f j) ∨
      i < g.functionCount ∧ g.functionCount ≤ j ∧ ∃ f, g.Reaches i f ∧ g.Reads f j)

/-- A level that was built, with all levels inside it. -/
inductive Built : Graph → Prop where
  | intro {g : Graph} (level : g.WellBuilt)
    (bodies : ∀ {i : Nat} {id body}, g.blocks[i]? = some (.function id body) → Built body) : Built g

theorem Built.level {g : Graph} (h : g.Built) : g.WellBuilt := by
  obtain ⟨level, -⟩ := h
  exact level

theorem Built.body {g : Graph} (h : g.Built) {i : Nat} {id : ValueId} {body : Graph}
    (hb : g.blocks[i]? = some (.function id body)) : Built body := by
  obtain ⟨-, bodies⟩ := h
  exact bodies hb

end Graph

namespace Draft

/-! ## Edges that are added in the end -/

/-- A draft with further edges. -/
structure Adds (d d' : Draft) (E : Nat → Nat → Prop) : Prop where
  eq : d' = { d with dependents := d'.dependents }
  size : d'.dependents.size = d.dependents.size
  row_iff : ∀ j i, i ∈ d'.row j ↔ i ∈ d.row j ∨ E j i

namespace Adds

variable {d d' d'' : Draft} {E E' : Nat → Nat → Prop}

theorem refl (d : Draft) : Adds d d fun _ _ => False := ⟨rfl, rfl, by simp⟩

theorem trans (h : Adds d d' E) (h' : Adds d' d'' E') : Adds d d'' fun j i => E j i ∨ E' j i := by
  refine ⟨?_, h'.size.trans h.size, fun j i => ?_⟩
  · rw [h'.eq, h.eq]
  · rw [h'.row_iff, h.row_iff, or_assoc]

theorem congr (h : Adds d d' E) (hE : ∀ j i, E j i ↔ E' j i) : Adds d d' E' :=
  ⟨h.eq, h.size, fun j i => by rw [h.row_iff, hE]⟩

theorem addEdge (d : Draft) {src : Nat} (hs : src < d.dependents.size) (dst : Nat) :
    Adds d (d.addEdge src dst) fun j i => j = src ∧ i = dst :=
  ⟨rfl, Array.size_modify .., fun j i => mem_modify_pushNew hs j i⟩

/-- Edges that are added one after the other, each step knowing only what never changes. -/
theorem foldl {γ : Type} {f : Draft → γ → Draft} {E : γ → Nat → Nat → Prop} (xs : List γ)
    (h : ∀ x ∈ xs, ∀ d', d' = { d with dependents := d'.dependents } →
      d'.dependents.size = d.dependents.size → Adds d' (f d' x) (E x)) :
    Adds d (xs.foldl f d) fun j i => ∃ x ∈ xs, E x j i := by
  induction xs generalizing d with
  | nil => exact (refl d).congr fun j i => by simp
  | cons x xs ih =>
    have hx := h x (by simp) d rfl rfl
    have hxs := ih (d := f d x) fun y hy d' he hs =>
      h y (List.mem_cons_of_mem _ hy) d' (by rw [he, hx.eq]) (hs.trans hx.size)
    refine (hx.trans hxs).congr fun j i => ?_
    simp

end Adds

theorem adds_propagateFrom {d : Draft} (readers : List Nat) (function : Nat) {sibling : Nat}
    (hs : sibling < d.dependents.size)
    (hc : ∀ j ∈ d.captures.getD sibling #[], j < d.dependents.size) :
    Adds d (propagateFrom readers function d sibling) fun j i =>
      j ∈ d.captures.getD sibling #[] ∧ i = function ∨ j = sibling ∧ i ∈ readers := by
  have hcaptured := Adds.foldl (d := d) (f := fun d value => d.addEdge value function)
    (E := fun value j i => j = value ∧ i = function) (d.captures.getD sibling #[]).toList
    fun value hv d' _ hsize => Adds.addEdge d' (hsize ▸ hc value (by simpa using hv)) function
  have hreaders := Adds.foldl (f := fun d reader => d.addEdge sibling reader)
    (E := fun reader j i => j = sibling ∧ i = reader) readers
    fun reader _ d' _ hsize => Adds.addEdge d' (hsize.trans hcaptured.size ▸ hs) reader
  refine (hcaptured.trans hreaders).congr fun j i => ?_
  simp only [Array.mem_toList_iff]
  grind

theorem reachable_eq {d d' : Draft} (h : d' = { d with dependents := d'.dependents })
    (function : Nat) : d'.reachable function = d.reachable function := by
  rw [h]
  rfl

/-- The edges that are added in the end. -/
theorem adds_propagate {d : Draft} {R : Nat → ValueId → Prop} (h : d.Reflects R) :
    Adds d d.propagate fun j i => ∃ f < d.functionCount, ∃ s ∈ d.reachable f,
      j ∈ d.captures.getD s #[] ∧ i = f ∨ j = s ∧ i ∈ d.row f := by
  have hlinks (a b : Nat) (hab : LinksTo d.links a b) : b < d.functionCount :=
    ((h.link_iff a b).mp hab).2.2.1
  have hreach (f : Nat) (hf : f < d.functionCount) (s : Nat) (hs : s ∈ d.reachable f) :
      s < d.functionCount := by
    obtain ⟨hne, hr⟩ := (mem_reachable hlinks hf s).mp hs
    rcases hr.cases_tail with he | ⟨b, -, hb⟩
    · exact absurd he hne
    · exact hlinks b s hb
  have hcaptures (s j : Nat) (hj : j ∈ d.captures.getD s #[]) : j < d.nextIndex := by
    obtain ⟨hs, -, id, hr, hm⟩ := (h.capture_iff s j).mp hj
    obtain ⟨k, hk, hmk, -⟩ := h.made s id hr hm.1 hm.2.1
    exact (hm.unique hmk).symm ▸ hk
  have hcount : d.functionCount ≤ d.nextIndex := Nat.le_add_right _ _
  have hfold := Adds.foldl (d := d)
    (f := fun d' f => (d'.reachable f).foldl (propagateFrom (d.dependents.getD f #[]).toList f) d')
    (E := fun f j i => ∃ s ∈ (d.reachable f).toList,
      j ∈ d.captures.getD s #[] ∧ i = f ∨ j = s ∧ i ∈ d.row f) (List.range d.functionCount) ?_
  · unfold propagate
    refine hfold.congr fun j i => ?_
    simp
  · intro f hf d' he hsize
    rw [List.mem_range] at hf
    rw [reachable_eq he, ← Array.foldl_toList]
    refine Adds.foldl _ fun s hs d'' he' hsize' => ?_
    have hs' : s < d.functionCount := hreach f hf s (by simpa using hs)
    have hc : d''.captures = d.captures := by rw [he', he]
    have hsize'' : d''.dependents.size = d.nextIndex :=
      (hsize'.trans hsize).trans h.dependents_size
    have hadds := adds_propagateFrom (d := d'') (d.dependents.getD f #[]).toList f
      (show s < d''.dependents.size by omega) (fun j hj => hsize'' ▸ hcaptures s j (hc ▸ hj))
    refine hadds.congr fun j i => ?_
    rw [hc, row]
    simp

/-! ## Taking instructions -/

/-- The number `n` places above another is in range. -/
def Sums (id : ValueId) (n : Nat) : Prop :=
  (id + Int32.ofNat n).toInt = id.toInt + (Int32.ofNat n).toInt

/-- There are numbers for a function that is opened, for what it starts with and for what comes after
its parameters. -/
structure HasRoom (d : Draft) (params : UInt32) : Prop where
  function : Sums d.base d.functions.size
  next : Sums d.base d.nextIndex
  base : (d.nextId + params.toInt32).toInt = d.nextId.toInt + params.toInt32.toInt

theorem takeValue_eq_ok {d d' : Draft} {is : List Instruction} :
    d.takeValue is = .ok d' ↔ d' = d.addValue is ∧ Sums d.base d.nextIndex := by
  unfold takeValue
  cases hn : d.base.plus (.ofNat d.nextIndex) with
  | error e =>
    refine ⟨(fun h => by cases h), fun h => ?_⟩
    rw [ValueId.plus_eq_ok.mpr ⟨rfl, h.2⟩] at hn
    cases hn
  | ok id =>
    obtain ⟨-, hs⟩ := ValueId.plus_eq_ok.mp hn
    refine ⟨fun h => ⟨(Except.ok.inj h).symm, hs⟩, fun h => ?_⟩
    rw [h.1]
    rfl

theorem enter_eq_ok {d b : Draft} {params : UInt32} {position : Nat} {rest : List Instruction} :
    d.enter params position rest = .ok b ↔
      b = .start d.nextId params position rest ∧ d.HasRoom params := by
  constructor
  · intro h
    unfold enter at h
    cases hf : d.base.plus (.ofNat d.functions.size) with
    | error e =>
      rw [hf] at h
      cases h
    | ok id =>
      rw [hf] at h
      cases hn : d.base.plus (.ofNat d.nextIndex) with
      | error e =>
        rw [hn] at h
        cases h
      | ok first =>
        obtain ⟨rfl, hnext⟩ := ValueId.plus_eq_ok.mp hn
        rw [hn] at h
        cases hb : d.nextId.plus params.toInt32 with
        | error e =>
          change (do let _ ← d.nextId.plus params.toInt32; _) = _ at h
          rw [hb] at h
          cases h
        | ok base =>
          change (do let _ ← d.nextId.plus params.toInt32; _) = _ at h
          rw [hb] at h
          exact ⟨(Except.ok.inj h).symm, (ValueId.plus_eq_ok.mp hf).2, hnext,
            (ValueId.plus_eq_ok.mp hb).2⟩
  · rintro ⟨rfl, hf, hn, hb⟩
    have hb' : d.nextId.plus params.toInt32 = .ok (d.nextId + params.toInt32) :=
      ValueId.plus_eq_ok.mpr ⟨rfl, hb⟩
    unfold enter
    rw [ValueId.plus_eq_ok.mpr ⟨rfl, hf⟩, ValueId.plus_eq_ok.mpr ⟨rfl, hn⟩]
    show (do let _ ← d.nextId.plus params.toInt32; _) = _
    rw [hb']
    rfl

/-- One more argument that waits for its call. -/
def withArgument (d : Draft) (id : ValueId) : Draft :=
  { d with pending := d.pending.push (.argument id) }

/-- A draft takes instructions that close every function body they open. -/
inductive Takes : Draft → List Instruction → Draft → Prop where
  | nil (d : Draft) : Takes d [] d
  | argument {d d₁ d' : Draft} {id : ValueId} {is : List Instruction} (position : Nat)
    (hd : d.depend id d.nextIndex position = .ok d₁)
    (h : Takes (d₁.withArgument id) is d') :
    Takes d (.argument id :: is) d'
  | call {d d₁ d' : Draft} {id : ValueId} {is : List Instruction} (position : Nat)
    (hd : d.depend id d.nextIndex position = .ok d₁) (hn : Sums d₁.base d₁.nextIndex)
    (h : Takes (d₁.addValue (d₁.pending.push (.call id)).toList) is d') : Takes d (.call id :: is) d'
  | value {d d₁ d' : Draft} {i : Instruction} {is : List Instruction} (position : Nat)
    (hi : (∃ c, i = .constant c) ∨ (∃ v n f, i = .field v n f) ∨ ∃ v, i = .copy v)
    (hp : d.pending = #[]) (hd : d.dependAll d.nextIndex position i.operand?.toList = .ok d₁)
    (hn : Sums d₁.base d₁.nextIndex) (h : Takes (d₁.addValue [i]) is d') : Takes d (i :: is) d'
  | function {d d₁ d' b : Draft} {params : UInt32} {body is : List Instruction} (position : Nat)
    (tail : List Instruction) (hp : d.pending = #[]) (hr : d.HasRoom params)
    (hb : Takes (.start d.nextId params position (body ++ .leave :: tail)) body b)
    (hbp : b.pending = #[]) (hd : d.addFunction b = .ok d₁) (h : Takes d₁ is d') :
    Takes d (.enter params :: body ++ .leave :: is) d'

/-- The instructions that a draft takes are well nested. -/
theorem Takes.countFunctions_succ {d d' : Draft} {is : List Instruction} (h : Takes d is d')
    (k : Nat) (rest : List Instruction) :
    countFunctions (k + 1) (is ++ rest) = countFunctions (k + 1) rest := by
  induction h generalizing k rest with
  | nil d => rfl
  | argument _ _ _ ih => exact ih k rest
  | call _ _ _ _ ih => exact ih k rest
  | value _ hi _ _ _ _ ih =>
    rcases hi with ⟨c, rfl⟩ | ⟨v, n, f, rfl⟩ | ⟨v, rfl⟩ <;> exact ih k rest
  | @function d d₁ d' b params body is position tail hp _ _ hbp hd _ ihb ih =>
    have hb := ihb (k + 1) (.leave :: is ++ rest)
    simp only [List.append_assoc, List.cons_append, countFunctions] at hb ⊢
    rw [hb]
    simpa using ih k rest

/-- What block `i` of a draft reads; arguments that wait for their call belong to the next block. -/
def Reads (d : Draft) (i : Nat) (id : ValueId) : Prop :=
  (∃ b, d.functions[i]? = some b ∧ id ∈ b.needs) ∨
  (∃ v b, i = d.functionCount + v ∧ d.values[v]? = some b ∧ id ∈ b.needs) ∨
  i = d.nextIndex ∧ id ∈ d.pending.toList.filterMap Instruction.operand?

/-- What holds of a draft at any time. -/
structure Sound (d : Draft) : Prop where
  reflects : d.Reflects d.Reads
  functions_le : d.functions.size ≤ d.functionCount
  function : ∀ {i : Nat} {b : Block}, d.functions[i]? = some b → ∃ body v,
    b = .function (d.base + Int32.ofNat i) body ∧ Graph.Built body ∧ d.functionCount ≤ v ∧
      v ≤ d.nextIndex ∧ body.first = d.base + Int32.ofNat v ∧
      ∀ id ∈ b.needs, ∀ j, d.Makes id j → j < v
  value : ∀ {v : Nat} {b : Block}, d.values[v]? = some b →
    ∃ is, b = .steps (d.base + Int32.ofNat (d.functionCount + v)) is

theorem not_mem_getD_replicate (n i j : Nat) :
    i ∉ (Array.replicate n (#[] : Array Nat)).getD j #[] := by
  rw [Array.getD_eq_getD_getElem?, Array.getElem?_replicate]
  split <;> simp

theorem sound_start (first : ValueId) (params : UInt32) (openedAt : Nat) (rest : List Instruction) :
    (start first params openedAt rest).Sound := by
  have hr (i : Nat) (id : ValueId) : ¬ (start first params openedAt rest).Reads i id := by
    simp [Reads, start]
  refine ⟨⟨?_, ?_, ?_, fun j i => ?_, fun i j => ?_, fun i j => ?_, fun id => ?_,
    fun i id h => absurd h (hr i id)⟩, ?_, fun h => ?_, fun h => ?_⟩
  · simp [start, nextIndex]
  · simp [start]
  · simp [start]
  · simp only [hr, false_and, exists_false, and_false, iff_false]
    exact not_mem_getD_replicate _ _ _
  · simp only [hr, false_and, exists_false, and_false, iff_false]
    exact not_mem_getD_replicate _ _ _
  · simp only [hr, false_and, exists_false, and_false, iff_false]
    exact not_mem_getD_replicate _ _ _
  · simp only [hr, exists_false, and_false, iff_false]
    exact Array.not_mem_empty id
  · simp [start]
  · simp [start] at h
  · simp [start] at h

/-! ### One more instruction -/

/-- A block that has no number yet is read by nothing. -/
theorem Reflects.addValue {d : Draft} {R : Nat → ValueId → Prop} (h : d.Reflects R)
    (is : List Instruction) : (d.addValue is).Reflects R := by
  have hn : (d.addValue is).nextIndex = d.nextIndex + 1 := by
    simp only [nextIndex, Draft.addValue, Array.size_push]
    omega
  have hlast (i : Nat) (id : ValueId) (hr : R i id) : ¬ d.Makes id d.nextIndex := by
    intro hm
    obtain ⟨j, hj, hmj, -⟩ := h.made i id hr hm.1 hm.2.1
    exact absurd (hm.unique hmj) (by omega)
  have hrow (j i : Nat) : i ∈ (d.addValue is).row j ↔ i ∈ d.row j := by
    simp only [row, Draft.addValue, Array.getD_eq_getD_getElem?, Array.getElem?_push]
    split
    case isTrue he =>
      subst he
      rw [Array.getElem?_eq_none (Nat.le_refl _)]
      simp
    case isFalse => rfl
  refine ⟨?_, h.links_size, h.captures_size, fun j i => (hrow j i).trans (h.row_iff j i),
    h.link_iff, h.capture_iff, h.escaped_iff, fun i id hr ha hf => ?_⟩
  · rw [hn, ← h.dependents_size]
    exact Array.size_push ..
  · obtain ⟨j, hj, hm, hlt⟩ := h.made i id hr ha hf
    exact ⟨j, by omega, hm, hlt⟩

namespace Sound

variable {d d₁ : Draft}

/-- Function blocks stay what they are while values are added. -/
theorem function_of_le (h : d.Sound) {d' : Draft} (hf : d'.first = d.first)
    (hp : d'.params = d.params) (hc : d'.functionCount = d.functionCount)
    (hn : d.nextIndex ≤ d'.nextIndex) {i : Nat} {b : Block} (hb : d.functions[i]? = some b) :
    ∃ body v, b = .function (d'.base + Int32.ofNat i) body ∧ Graph.Built body ∧
      d'.functionCount ≤ v ∧ v ≤ d'.nextIndex ∧ body.first = d'.base + Int32.ofNat v ∧
      ∀ id ∈ b.needs, ∀ j, d'.Makes id j → j < v := by
  have hbase : d'.base = d.base := by rw [base, base, hf, hp]
  obtain ⟨body, v, he, hB, hv, hv', hfirst, hm⟩ := h.function hb
  refine ⟨body, v, by rw [hbase, he], hB, by omega, by omega, by rw [hbase, hfirst],
    fun id hid j hj => hm id hid j ?_⟩
  rwa [Makes, hf, hbase] at hj

/-- An argument that waits for its call. -/
theorem argument (h : d.Sound) {id : ValueId} {position : Nat}
    (hd : d.depend id d.nextIndex position = .ok d₁) : (d₁.withArgument id).Sound := by
  obtain ⟨hr, hl⟩ := h.reflects.depend (.inr rfl) hd
  have hr' : (d₁.withArgument id).Reflects (alsoReads d.Reads d.nextIndex [id]) :=
    hr.of_eq rfl rfl rfl rfl rfl rfl rfl rfl
  have hn : (d₁.withArgument id).nextIndex = d.nextIndex := hl.nextIndex
  refine ⟨hr'.congr fun i x => ?_, ?_, fun hb => ?_, fun hb => ?_⟩
  · simp only [alsoReads, Reads, hn]
    simp only [withArgument, hl.functions, hl.functionCount, hl.values, hl.pending,
      Array.toList_push, List.filterMap_append, List.mem_append, List.filterMap_cons,
      Instruction.operand?, List.filterMap_nil]
    grind
  · show d₁.functions.size ≤ d₁.functionCount
    rw [hl.functions, hl.functionCount]
    exact h.functions_le
  · exact h.function_of_le hl.first hl.params hl.functionCount (Nat.le_of_eq hn.symm)
      (hl.functions ▸ hb)
  · obtain ⟨is, he⟩ := h.value (hl.values ▸ hb)
    exact ⟨is, by rw [he, ← hl.base, ← hl.functionCount]; rfl⟩

theorem getElem?_push_eq_some {α : Type} {xs : Array α} {x y : α} {i : Nat} :
    (xs.push x)[i]? = some y ↔ xs[i]? = some y ∨ i = xs.size ∧ y = x := by
  rw [Array.getElem?_push]
  split
  case isTrue h =>
    subst h
    rw [Array.getElem?_eq_none (Nat.le_refl _)]
    simp [eq_comm]
  case isFalse h => simp [h]

/-- A value block, with all that it reads noted. -/
theorem addValue (h : d.Sound) {ids : List ValueId} {is : List Instruction} (hl : SameLevel d d₁)
    (hr : d₁.Reflects (alsoReads d.Reads d.nextIndex ids))
    (his : is.filterMap Instruction.operand? =
      d.pending.toList.filterMap Instruction.operand? ++ ids) : (d₁.addValue is).Sound := by
  have hn : (d₁.addValue is).nextIndex = d.nextIndex + 1 := by
    simp only [nextIndex, Draft.addValue, Array.size_push, hl.functionCount, hl.values]
    omega
  refine ⟨(hr.addValue is).congr fun i x => ?_, ?_, fun hb => ?_, fun hb => ?_⟩
  · have hneeds (id : ValueId) : x ∈ (Block.steps id is).needs ↔
        x ∈ d.pending.toList.filterMap Instruction.operand? ∨ x ∈ ids := by
      rw [Block.needs, his, List.mem_append]
    simp only [alsoReads, Reads, hn]
    simp only [Draft.addValue, hl.functions, hl.functionCount, hl.values, Array.toList_empty,
      List.filterMap_nil, List.not_mem_nil, and_false, or_false, getElem?_push_eq_some]
    constructor
    · rintro ((hf | ⟨v, b, hi, hb, hx⟩ | ⟨hi, hx⟩) | ⟨hi, hx⟩)
      · exact .inl hf
      · exact .inr ⟨v, b, hi, .inl hb, hx⟩
      · exact .inr ⟨d.values.size, _, hi, .inr ⟨rfl, rfl⟩, (hneeds _).mpr (.inl hx)⟩
      · exact .inr ⟨d.values.size, _, hi, .inr ⟨rfl, rfl⟩, (hneeds _).mpr (.inr hx)⟩
    · rintro (hf | ⟨v, b, hi, hb | ⟨rfl, rfl⟩, hx⟩)
      · exact .inl (.inl hf)
      · exact .inl (.inr (.inl ⟨v, b, hi, hb, hx⟩))
      · rcases (hneeds _).mp hx with hx | hx
        · exact .inl (.inr (.inr ⟨hi, hx⟩))
        · exact .inr ⟨hi, hx⟩
  · show d₁.functions.size ≤ d₁.functionCount
    rw [hl.functions, hl.functionCount]
    exact h.functions_le
  · exact h.function_of_le (show (d₁.addValue is).first = d.first from hl.first) hl.params
      hl.functionCount (hn ▸ Nat.le_succ _) (hl.functions ▸ hb)
  · rcases getElem?_push_eq_some.mp hb with hb | ⟨rfl, rfl⟩
    · obtain ⟨is, he⟩ := h.value (hl.values ▸ hb)
      exact ⟨is, by rw [he, ← hl.base, ← hl.functionCount]; rfl⟩
    · exact ⟨is, rfl⟩

end Sound

/-! ### The finished level -/

theorem SameLevel.propagate {d : Draft} {R : Nat → ValueId → Prop} (h : d.Reflects R) :
    SameLevel d d.propagate := by
  rw [(adds_propagate h).eq]
  exact ⟨rfl, rfl, rfl, rfl, rfl, rfl, rfl⟩

/-- The blocks of a level by their numbers. -/
theorem getElem?_functions_append_values {d : Draft} (hc : d.functions.size = d.functionCount)
    (i : Nat) (b : Block) : (d.functions ++ d.values).toList[i]? = some b ↔
      d.functions[i]? = some b ∨ ∃ v, i = d.functionCount + v ∧ d.values[v]? = some b := by
  rw [Array.getElem?_toList, Array.getElem?_append]
  split
  case isTrue hi =>
    refine ⟨.inl, fun h => h.resolve_right ?_⟩
    rintro ⟨v, rfl, -⟩
    omega
  case isFalse hi =>
    rw [hc] at hi ⊢
    constructor
    · intro h
      exact .inr ⟨i - d.functionCount, by omega, h⟩
    · rintro (h | ⟨v, rfl, h⟩)
      · rw [Array.getElem?_eq_none (by omega)] at h
        cases h
      · rwa [Nat.add_sub_cancel_left]

namespace Sound

variable {d : Draft}

theorem takeWhile_blocks (h : d.Sound) :
    ((d.functions ++ d.values).toList.takeWhile Block.isFunction).length = d.functions.size := by
  have hf : ∀ b ∈ d.functions.toList, b.isFunction = true := by
    intro b hb
    obtain ⟨i, hi⟩ := List.mem_iff_getElem?.mp hb
    obtain ⟨body, v, he, -⟩ := h.function (Array.getElem?_toList ▸ hi)
    rw [he]
    rfl
  have hv : d.values.toList.takeWhile Block.isFunction = [] := by
    cases hd : d.values.toList with
    | nil => rfl
    | cons b bs =>
      have hb : d.values[0]? = some b := by
        rw [← Array.getElem?_toList, hd]
        rfl
      obtain ⟨is, he⟩ := h.value hb
      rw [List.takeWhile_cons_of_neg]
      rw [he]
      simp [Block.isFunction]
  rw [Array.toList_append, List.takeWhile_append_of_pos hf, hv, List.append_nil,
    Array.length_toList]

/-- What blocks read, once no argument waits for its call. -/
theorem reads_iff (hp : d.pending = #[]) (hc : d.functions.size = d.functionCount) (i : Nat)
    (id : ValueId) : d.Reads i id ↔
      ∃ b, (d.functions ++ d.values).toList[i]? = some b ∧ id ∈ b.needs := by
  simp only [Reads, hp, getElem?_functions_append_values hc]
  constructor
  · rintro (⟨b, hb, hx⟩ | ⟨v, b, hi, hb, hx⟩ | ⟨-, hx⟩)
    · exact ⟨b, .inl hb, hx⟩
    · exact ⟨b, .inr ⟨v, hi, hb⟩, hx⟩
    · simp at hx
  · rintro ⟨b, hb | ⟨v, hi, hb⟩, hx⟩
    · exact .inl ⟨b, hb, hx⟩
    · exact .inr (.inl ⟨v, b, hi, hb, hx⟩)

/-- What is read from a level around is what escaped. -/
theorem mem_escaped (h : d.Sound) (hp : d.pending = #[]) (hc : d.functions.size = d.functionCount)
    (id : ValueId) : id ∈ d.escaped ↔
      0 ≤ id ∧ id < d.first ∧ ∃ b ∈ (d.functions ++ d.values).toList, id ∈ b.needs := by
  rw [h.reflects.escaped_iff]
  have hr : (∃ i, d.Reads i id) ↔ ∃ b ∈ (d.functions ++ d.values).toList, id ∈ b.needs := by
    simp only [reads_iff hp hc]
    constructor
    · rintro ⟨i, b, hb, hx⟩
      exact ⟨b, List.mem_of_getElem? hb, hx⟩
    · rintro ⟨b, hb, hx⟩
      obtain ⟨i, hi⟩ := List.mem_iff_getElem?.mp hb
      exact ⟨i, b, hi, hx⟩
  rw [hr, ← and_assoc, ← and_assoc]
  refine and_congr_left fun _ => ?_
  simp only [Ambient, not_or, Int32.not_lt]
  constructor
  · rintro ⟨⟨h0, -⟩, hf⟩
    exact ⟨h0, hf⟩
  · rintro ⟨h0, hf⟩
    exact ⟨⟨h0, fun hp => Int32.not_lt.mpr hp.1 hf⟩, hf⟩

end Sound

section Finish

variable {d : Draft}

theorem finish_first (h : d.Sound) : d.finish.first = d.first := (SameLevel.propagate h.reflects).first

theorem finish_base (h : d.Sound) : d.finish.base = d.base := (SameLevel.propagate h.reflects).base

theorem finish_blocks (h : d.Sound) : d.finish.blocks = (d.functions ++ d.values).toList := by
  have hl := SameLevel.propagate h.reflects
  show (d.propagate.functions ++ d.propagate.values).toList = _
  rw [hl.functions, hl.values]

theorem finish_functionCount (h : d.Sound) (hc : d.functions.size = d.functionCount) :
    Graph.functionCount d.finish = d.functionCount := by
  rw [Graph.functionCount, finish_blocks h, h.takeWhile_blocks, hc]

theorem finish_makes (h : d.Sound) (id : ValueId) (j : Nat) :
    Graph.Makes d.finish id j ↔ d.Makes id j := by
  rw [Graph.Makes, Makes, finish_first h, finish_base h]

theorem finish_reads (h : d.Sound) (hp : d.pending = #[])
    (hc : d.functions.size = d.functionCount) (i j : Nat) :
    Graph.Reads d.finish i j ↔ ∃ id, d.Reads i id ∧ d.Makes id j := by
  simp only [Graph.Reads, finish_blocks h, finish_makes h, Sound.reads_iff hp hc]
  constructor
  · rintro ⟨b, hb, id, hid, hm⟩
    exact ⟨id, ⟨b, hb, hid⟩, hm⟩
  · rintro ⟨id, ⟨b, hb, hid⟩, hm⟩
    exact ⟨b, hb, id, hid, hm⟩

theorem finish_waiting (d : Draft) (j i : Nat) :
    i ∈ d.finish.waiting j ↔ i ∈ d.propagate.row j := by
  show i ∈ (d.propagate.dependents.toList.map Array.toList).getD j [] ↔ _
  rw [row, Array.getD_eq_getD_getElem?, List.getD_eq_getElem?_getD, List.getElem?_map,
    Array.getElem?_toList]
  cases d.propagate.dependents[j]? <;> simp

/-- Functions reach each other through what they read from each other. -/
theorem finish_reaches (h : d.Sound) (hp : d.pending = #[])
    (hc : d.functions.size = d.functionCount) (i j : Nat) :
    ReflTransGen (LinksTo d.links) i j ↔ Graph.Reaches d.finish i j := by
  have hlink (a b : Nat) : LinksTo d.links a b ↔ a ≠ b ∧ Graph.Links d.finish a b := by
    rw [LinksTo, h.reflects.link_iff, Graph.Links, finish_functionCount h hc, finish_reads h hp hc]
  constructor
  · intro hr
    exact ReflTransGen.mono (fun a b hab => ((hlink a b).mp hab).2) i j hr
  · intro hr
    induction hr with
    | refl => exact .refl
    | @tail b c _ hbc ih =>
      by_cases he : b = c
      · exact he ▸ ih
      · exact ih.tail ((hlink b c).mpr ⟨he, hbc⟩)

theorem finish_waiting_iff (h : d.Sound) (hp : d.pending = #[])
    (hc : d.functions.size = d.functionCount) (j i : Nat) :
    i ∈ d.finish.waiting j ↔ i ≠ j ∧
      (d.functionCount ≤ i ∧ Graph.Reads d.finish i j ∨
        d.functionCount ≤ i ∧ j < d.functionCount ∧
          (∃ f, f < d.functionCount ∧ Graph.Reads d.finish i f ∧ Graph.Reaches d.finish f j) ∨
        i < d.functionCount ∧ d.functionCount ≤ j ∧
          ∃ f, Graph.Reaches d.finish i f ∧ Graph.Reads d.finish f j) := by
  have hreads := finish_reads h hp hc
  have hlinks (a b : Nat) (hab : LinksTo d.links a b) : b < d.functionCount :=
    ((h.reflects.link_iff a b).mp hab).2.2.1
  have hreachable (f s : Nat) (hf : f < d.functionCount) :
      s ∈ d.reachable f ↔ s ≠ f ∧ Graph.Reaches d.finish f s := by
    rw [mem_reachable hlinks hf, finish_reaches h hp hc]
  have hbound (f s : Nat) (hf : f < d.functionCount) (hr : Graph.Reaches d.finish f s) :
      s < d.functionCount := by
    rcases hr.cases_tail with he | ⟨b, -, hb⟩
    · exact he ▸ hf
    · exact finish_functionCount h hc ▸ hb.2.1
  rw [finish_waiting, (adds_propagate h.reflects).row_iff, h.reflects.row_iff, ← hreads]
  constructor
  · rintro (⟨hne, hi | hj, hr⟩ | ⟨f, hf, s, hs, ⟨hj, rfl⟩ | ⟨rfl, hi⟩⟩)
    · exact ⟨hne, .inl ⟨hi, hr⟩⟩
    · refine ⟨hne, ?_⟩
      by_cases hi : d.functionCount ≤ i
      · exact .inl ⟨hi, hr⟩
      · exact .inr (.inr ⟨by omega, hj, i, .refl, hr⟩)
    · obtain ⟨-, hj, hr⟩ := (h.reflects.capture_iff s j).mp hj
      exact ⟨by omega, .inr (.inr ⟨hf, hj, s, ((hreachable i s hf).mp hs).2, (hreads s j).mpr hr⟩)⟩
    · obtain ⟨hne, hi, hr⟩ := (h.reflects.row_iff f i).mp hi
      obtain ⟨-, hfj⟩ := (hreachable f j hf).mp hs
      have hj : j < d.functionCount := hbound f j hf hfj
      exact ⟨by omega, .inr (.inl ⟨by omega, hj, f, hf, (hreads i f).mpr hr, hfj⟩)⟩
  · rintro ⟨hne, ⟨hi, hr⟩ | ⟨hi, hj, f, hf, hr, hfj⟩ | ⟨hi, hj, f, hif, hr⟩⟩
    · exact .inl ⟨hne, .inl hi, hr⟩
    · by_cases he : j = f
      · exact .inl ⟨hne, .inl hi, he ▸ hr⟩
      · refine .inr ⟨f, hf, j, (hreachable f j hf).mpr ⟨he, hfj⟩, .inr ⟨rfl, ?_⟩⟩
        exact (h.reflects.row_iff f i).mpr ⟨by omega, .inl hi, (hreads i f).mp hr⟩
    · by_cases he : f = i
      · exact .inl ⟨hne, .inr hj, he ▸ hr⟩
      · refine .inr ⟨i, hi, f, (hreachable i f hi).mpr ⟨he, hif⟩, .inl ⟨?_, rfl⟩⟩
        exact (h.reflects.capture_iff f j).mpr ⟨hbound i f hi hif, hj, (hreads f j).mp hr⟩

/-- A finished level is well built, and so are the levels inside it. -/
theorem built_finish (h : d.Sound) (hp : d.pending = #[])
    (hc : d.functions.size = d.functionCount) : Graph.Built d.finish := by
  have hblock {i : Nat} {b : Block} (hb : d.finish.blocks[i]? = some b) :
      d.functions[i]? = some b ∨ ∃ v, i = d.functionCount + v ∧ d.values[v]? = some b := by
    rwa [finish_blocks h, getElem?_functions_append_values hc] at hb
  have hlength : d.finish.blocks.length = d.nextIndex := by
    rw [finish_blocks h, Array.length_toList, Array.size_append, hc]
    rfl
  have hcount := finish_functionCount h hc
  have hfunction {i : Nat} {id : ValueId} {body : Graph}
      (hb : d.finish.blocks[i]? = some (.function id body)) :
      d.functions[i]? = some (.function id body) := by
    rcases hblock hb with hb | ⟨v, -, hb⟩
    · exact hb
    · obtain ⟨is, he⟩ := h.value hb
      cases he
  refine .intro ⟨?_, fun hb => ?_, fun hb => ?_, fun hb hid ha hf => ?_, fun hb => ?_, fun {j i} => ?_⟩
    fun hb => ?_
  · have hsize : d.propagate.dependents.size = d.nextIndex :=
      (adds_propagate h.reflects).size.trans h.reflects.dependents_size
    rw [hlength, ← hsize]
    simp [finish]
  · rw [finish_base h]
    rcases hblock hb with hb | ⟨v, rfl, hv⟩
    · obtain ⟨body, v, he, -⟩ := h.function hb
      rw [he]
      rfl
    · obtain ⟨is, he⟩ := h.value hv
      rw [he]
      rfl
  · rw [hcount]
    rcases hblock hb with hb | ⟨v, rfl, hv⟩
    · obtain ⟨body, v, he, -⟩ := h.function hb
      have hi := (Array.getElem?_eq_some_iff.mp hb).1
      rw [he]
      exact ⟨fun _ => by omega, fun _ => rfl⟩
    · obtain ⟨is, he⟩ := h.value hv
      rw [he]
      simp [Block.isFunction]
  · rename_i i b id
    rw [hlength, hcount]
    rw [finish_first h, finish_base h] at ha
    rw [finish_first h] at hf
    have hr : d.Reads i id := by
      rw [Sound.reads_iff hp hc, ← finish_blocks h]
      exact ⟨b, hb, hid⟩
    obtain ⟨j, hj, hm, hlt⟩ := h.reflects.made i id hr ha hf
    exact ⟨j, hj, (finish_makes h id j).mpr hm, hlt⟩
  · rw [hcount, hlength, finish_base h]
    have hbf := hfunction hb
    obtain ⟨body', v, he, -, hv, hv', hfirst, hm⟩ := h.function hbf
    cases he
    refine ⟨v, hv, hv', hfirst, ?_⟩
    rintro j ⟨b, hb', id', hid', hmk⟩
    rw [hb] at hb'
    cases hb'
    exact hm id' hid' j ((finish_makes h id' j).mp hmk)
  · rw [hcount]
    exact finish_waiting_iff h hp hc j i
  · obtain ⟨body', v, he, hB, -⟩ := h.function (hfunction hb)
    cases he
    exact hB

end Finish

/-- One more function block. -/
def withFunction (d : Draft) (b : Block) : Draft := { d with functions := d.functions.push b }

theorem addFunction_eq_ok {d d₁ b : Draft} (hd : d.addFunction b = .ok d₁) :
    ∃ d₀, d.dependAll d.functions.size b.openedAt b.escaped.toList = .ok d₀ ∧
      d₁ = d₀.withFunction (.function (d.base + Int32.ofNat d.functions.size) b.finish) := by
  unfold addFunction at hd
  cases hn : d.dependAll d.functions.size b.openedAt b.escaped.toList with
  | error e =>
    simp only [hn] at hd
    cases hd
  | ok d₀ =>
    simp only [hn] at hd
    cases hd
    exact ⟨d₀, rfl, rfl⟩

/-- A function block, with all that its body reads from around it noted. -/
theorem Sound.addFunction {d d₁ b : Draft} (h : d.Sound) (hp : d.pending = #[])
    (hi : d.functions.size < d.functionCount) (hb : b.Sound) (hbp : b.pending = #[])
    (hbc : b.functions.size = b.functionCount) (hf : b.first = d.nextId)
    (hd : d.addFunction b = .ok d₁) : d₁.Sound ∧ d₁.functions.size = d.functions.size + 1 ∧
      d₁.functionCount = d.functionCount ∧ d₁.pending = #[] ∧ d₁.first = d.first ∧
      d₁.params = d.params := by
  obtain ⟨d₀, hn, rfl⟩ := addFunction_eq_ok hd
  obtain ⟨hr, hl⟩ := h.reflects.dependAll (.inl hi) hn
  have hneeds (id x : ValueId) : x ∈ (Block.function id b.finish).needs ↔ x ∈ b.escaped.toList := by
    rw [Block.mem_needs_function, Array.mem_toList_iff, hb.mem_escaped hbp hbc, finish_first hb,
      finish_blocks hb]
  have hr' (f : Block) :
      (d₀.withFunction f).Reflects (alsoReads d.Reads d.functions.size b.escaped.toList) :=
    hr.of_eq rfl rfl rfl rfl rfl rfl rfl rfl
  have hni (f : Block) : (d₀.withFunction f).nextIndex = d.nextIndex := hl.nextIndex
  refine ⟨⟨(hr' _).congr fun i x => ?_, ?_, fun {i b'} hb' => ?_, fun hv => ?_⟩, ?_,
    hl.functionCount, hl.pending.trans hp, hl.first, hl.params⟩
  · simp only [alsoReads, Reads, hni]
    simp only [withFunction, hl.functions, hl.functionCount, hl.values, hl.pending,
      getElem?_push_eq_some]
    constructor
    · rintro ((⟨b, hb, hx⟩ | hv) | ⟨rfl, hx⟩)
      · exact .inl ⟨b, .inl hb, hx⟩
      · exact .inr hv
      · exact .inl ⟨_, .inr ⟨rfl, rfl⟩, (hneeds _ x).mpr hx⟩
    · rintro (⟨b, hb | ⟨rfl, rfl⟩, hx⟩ | hv)
      · exact .inl (.inl ⟨b, hb, hx⟩)
      · exact .inr ⟨rfl, (hneeds _ x).mp hx⟩
      · exact .inl (.inr hv)
  · show (d₀.functions.push _).size ≤ d₀.functionCount
    rw [Array.size_push, hl.functions, hl.functionCount]
    exact hi
  · rcases getElem?_push_eq_some.mp hb' with hb' | ⟨rfl, rfl⟩
    · exact h.function_of_le (show (d₀.withFunction _).first = d.first from hl.first) hl.params
        hl.functionCount (Nat.le_of_eq (hni _).symm) (hl.functions ▸ hb')
    · refine ⟨b.finish, d.nextIndex, ?_, built_finish hb hbp hbc, ?_, Nat.le_of_eq (hni _).symm, ?_,
        fun x hx j hj => ?_⟩
      · rw [hl.functions, ← hl.base]
        rfl
      · rw [show (d₀.withFunction _).functionCount = d.functionCount from hl.functionCount]
        exact Nat.le_add_right _ _
      · rw [finish_first hb, hf, nextId, ← hl.base]
        rfl
      · have hx' : alsoReads d.Reads d.functions.size b.escaped.toList d.functions.size x :=
          .inr ⟨rfl, (hneeds _ x).mp hx⟩
        obtain ⟨k, hk, hmk, -⟩ := (hr' _).made _ x hx' hj.1 hj.2.1
        rw [hni] at hk
        exact hj.unique hmk ▸ hk
  · obtain ⟨is, he⟩ := h.value (hl.values ▸ hv)
    exact ⟨is, by rw [he, ← hl.base, ← hl.functionCount]; rfl⟩
  · show (d₀.functions.push _).size = _
    rw [Array.size_push, hl.functions]

/-- A draft stays sound while it takes instructions, if it has counted the functions among them. -/
theorem Takes.sound {d d' : Draft} {is : List Instruction} (h : Takes d is d')
    (rest : List Instruction) (hrest : countFunctions 0 rest = 0) (hd : d.Sound)
    (hc : d.functionCount = d.functions.size + countFunctions 0 (is ++ rest)) :
    d'.Sound ∧ d'.functions.size = d'.functionCount ∧ d'.first = d.first ∧ d'.params = d.params := by
  induction h generalizing rest with
  | nil d =>
    rw [List.nil_append, hrest] at hc
    exact ⟨hd, hc.symm, rfl, rfl⟩
  | @argument d d₁ d' id is position hdep _ ih =>
    obtain ⟨-, hl⟩ := hd.reflects.depend (.inr rfl) hdep
    obtain ⟨h', hc', hf', hp'⟩ := ih rest hrest (hd.argument hdep) (by
      show d₁.functionCount = d₁.functions.size + _
      rw [hl.functionCount, hl.functions]
      exact hc)
    exact ⟨h', hc', hf'.trans hl.first, hp'.trans hl.params⟩
  | @call d d₁ d' id is position hdep _ _ ih =>
    obtain ⟨hr, hl⟩ := hd.reflects.depend (.inr rfl) hdep
    have hv : (d₁.addValue (d₁.pending.push (.call id)).toList).Sound := hd.addValue hl hr (by
      rw [hl.pending]
      simp [Instruction.operand?])
    obtain ⟨h', hc', hf', hp'⟩ := ih rest hrest hv (by
      show d₁.functionCount = d₁.functions.size + _
      rw [hl.functionCount, hl.functions]
      exact hc)
    exact ⟨h', hc', hf'.trans hl.first, hp'.trans hl.params⟩
  | @value d d₁ d' i is position hi hp hdep _ _ ih =>
    obtain ⟨hr, hl⟩ := hd.reflects.dependAll (.inr rfl) hdep
    have hv : (d₁.addValue [i]).Sound := hd.addValue hl hr (by
      simp only [hp, Array.toList_empty, List.filterMap_cons, List.filterMap_nil, List.nil_append]
      cases i.operand? <;> rfl)
    obtain ⟨h', hc', hf', hp'⟩ := ih rest hrest hv (by
      show d₁.functionCount = d₁.functions.size + _
      rw [hl.functionCount, hl.functions, hc]
      rcases hi with ⟨c, rfl⟩ | ⟨v, n, f, rfl⟩ | ⟨v, rfl⟩ <;> rfl)
    exact ⟨h', hc', hf'.trans hl.first, hp'.trans hl.params⟩
  | @function d d₁ d' b params body is position tail hp _ hb hbp hadd _ ihb ih =>
    obtain ⟨hbs, hbc, hbf, -⟩ := ihb (.leave :: tail) rfl (sound_start ..) (by
      show countFunctions 0 (body ++ .leave :: tail) = 0 + _
      rw [Nat.zero_add])
    have hcount : countFunctions 0 (.enter params :: body ++ .leave :: is ++ rest)
        = 1 + countFunctions 0 (is ++ rest) := by
      have hskip := hb.countFunctions_succ 0 (.leave :: is ++ rest)
      simp only [List.append_assoc, List.cons_append, countFunctions] at hskip ⊢
      rw [hskip]
      simp
    rw [hcount] at hc
    obtain ⟨hs, hsize, hfc, -, hf, hpar⟩ := hd.addFunction hp (by omega) hbs hbp hbc hbf hadd
    obtain ⟨h', hc', hf', hp'⟩ := ih rest hrest hs (by omega)
    exact ⟨h', hc', hf'.trans hf, hp'.trans hpar⟩

/-! ## Building -/

/-- What the instructions that follow make of a draft inside others: the level is finished by their
end, or by the end of its function body, after which the level around it goes on. -/
def Taken (g : Graph) (d : Draft) (is : List Instruction) : List Draft → Prop
  | [] => ∃ d', Takes d is d' ∧ d'.pending = #[] ∧ g = d'.finish
  | parent :: around => ∃ body rest d' parent' position, is = body ++ .leave :: rest ∧
      Takes d body d' ∧ d'.pending = #[] ∧ parent.addFunction d' = .ok parent' ∧
      Graph.buildFrom position parent' around rest = .ok g

theorem Taken.append {g : Graph} {d d₁ : Draft} {is : List Instruction} {around : List Draft}
    (front : List Instruction) (hf : ∀ {js d'}, Takes d₁ js d' → Takes d (front ++ js) d') (h : Taken g d₁ is around) :
    Taken g d (front ++ is) around := by
  cases around with
  | nil =>
    obtain ⟨d', ht, hp, hg⟩ := h
    exact ⟨d', hf ht, hp, hg⟩
  | cons parent around =>
    obtain ⟨body, rest, d', parent', position, rfl, ht, hp, ha, hg⟩ := h
    exact ⟨front ++ body, rest, d', parent', position, by simp, hf ht, hp, ha, hg⟩

theorem pending_eq_empty {d : Draft} (h : ¬ (!d.pending.isEmpty) = true) : d.pending = #[] := by
  simpa using h

/-- What an instruction does that makes a value without taking arguments. -/
theorem buildFrom_cons_value {position : Nat} {d : Draft} {around : List Draft} {i : Instruction}
    {is : List Instruction}
    (hi : (∃ c, i = .constant c) ∨ (∃ v n f, i = .field v n f) ∨ ∃ v, i = .copy v) :
    Graph.buildFrom position d around (i :: is) =
      if !d.pending.isEmpty then .error (.strayArguments position)
      else d.dependAll d.nextIndex position i.operand?.toList >>= fun d =>
        d.takeValue [i] >>= fun d => Graph.buildFrom (position + 1) d around is := by
  rcases hi with ⟨c, rfl⟩ | ⟨v, n, f, rfl⟩ | ⟨v, rfl⟩ <;> rfl

/-- An instruction that makes a value without taking arguments. -/
theorem buildFrom_value {g : Graph} {position : Nat} {d : Draft} {around : List Draft}
    {i : Instruction} {is : List Instruction}
    (hi : (∃ c, i = .constant c) ∨ (∃ v n f, i = .field v n f) ∨ ∃ v, i = .copy v)
    (h : Graph.buildFrom position d around (i :: is) = .ok g) : d.pending = #[] ∧
      ∃ d₁, d.dependAll d.nextIndex position i.operand?.toList = .ok d₁ ∧
        Sums d₁.base d₁.nextIndex ∧
        Graph.buildFrom (position + 1) (d₁.addValue [i]) around is = .ok g := by
  rw [buildFrom_cons_value hi] at h
  split at h
  · cases h
  · rename_i hp
    refine ⟨pending_eq_empty hp, ?_⟩
    cases hd : d.dependAll d.nextIndex position i.operand?.toList with
    | error e =>
      rw [hd] at h
      cases h
    | ok d₁ =>
      rw [hd] at h
      change (d₁.takeValue [i] >>= fun d => Graph.buildFrom (position + 1) d around is) = .ok g at h
      cases hv : d₁.takeValue [i] with
      | error e =>
        rw [hv] at h
        cases h
      | ok d₂ =>
        obtain ⟨rfl, hn⟩ := takeValue_eq_ok.mp hv
        rw [hv] at h
        exact ⟨d₁, rfl, hn, h⟩

/-- What is built is built from drafts that take the instructions. -/
theorem taken_of_buildFrom {g : Graph} (is : List Instruction) (position : Nat) (d : Draft)
    (around : List Draft) (h : Graph.buildFrom position d around is = .ok g) :
    Taken g d is around := by
  induction hn : is.length using Nat.strongRecOn generalizing is position d around with
  | ind n ih =>
    subst hn
    have value (i : Instruction) (js : List Instruction)
        (hi : (∃ c, i = .constant c) ∨ (∃ v n f, i = .field v n f) ∨ ∃ v, i = .copy v)
        (he : is = i :: js) : Taken g d (i :: js) around := by
      subst he
      obtain ⟨hp, d₁, hd, hn, h'⟩ := buildFrom_value hi h
      exact Taken.append [_] (fun ht => .value position hi hp hd hn ht)
        (ih js.length (Nat.lt_succ_self _) js _ _ _ h' rfl)
    cases is with
    | nil =>
      rw [Graph.buildFrom] at h
      split at h
      · cases h
      · rename_i hp
        cases around with
        | nil =>
          cases h
          exact ⟨d, .nil d, pending_eq_empty hp, rfl⟩
        | cons parent around => cases h
    | cons i is =>
      cases i with
      | leave =>
        unfold Graph.buildFrom at h
        split at h
        · cases h
        · rename_i hp
          cases around with
          | nil => cases h
          | cons parent around =>
            dsimp only at h
            cases ha : parent.addFunction d with
            | error e =>
              rw [ha] at h
              cases h
            | ok parent' =>
              rw [ha] at h
              exact ⟨[], is, d, parent', position + 1, rfl, .nil d, pending_eq_empty hp, ha, h⟩
      | enter params =>
        rw [Graph.buildFrom] at h
        split at h
        · cases h
        · rename_i hp
          change (d.enter params position is >>= fun b =>
            Graph.buildFrom (position + 1) b (d :: around) is) = .ok g at h
          cases he : d.enter params position is with
          | error e =>
            rw [he] at h
            cases h
          | ok b₀ =>
            obtain ⟨rfl, hr⟩ := enter_eq_ok.mp he
            rw [he] at h
            have hb := ih is.length (Nat.lt_succ_self _) is _ _ _ h rfl
            obtain ⟨body, rest, b, d₁, position', rfl, ht, hbp, ha, h'⟩ := hb
            have hrest := ih rest.length (by simp; omega) rest _ _ _ h' rfl
            have hcons : Taken g d ((.enter params :: body ++ [.leave]) ++ rest) around := by
              refine hrest.append _ fun {js d'} hjs => ?_
              have := Takes.function position rest (pending_eq_empty hp) hr ht hbp ha hjs
              simpa using this
            simpa using hcons
      | argument id =>
        rw [Graph.buildFrom] at h
        cases hd : d.depend id d.nextIndex position with
        | error e =>
          rw [hd] at h
          cases h
        | ok d₁ =>
          rw [hd] at h
          exact Taken.append [_] (fun ht => .argument position hd ht)
            (ih is.length (Nat.lt_succ_self _) is _ (d₁.withArgument id) _ h rfl)
      | call id =>
        rw [Graph.buildFrom] at h
        cases hd : d.depend id d.nextIndex position with
        | error e =>
          rw [hd] at h
          cases h
        | ok d₁ =>
          rw [hd] at h
          change (d₁.takeValue (d₁.pending.push (.call id)).toList >>= fun d =>
            Graph.buildFrom (position + 1) d around is) = .ok g at h
          cases hv : d₁.takeValue (d₁.pending.push (.call id)).toList with
          | error e =>
            rw [hv] at h
            cases h
          | ok d₂ =>
            obtain ⟨rfl, hn⟩ := takeValue_eq_ok.mp hv
            rw [hv] at h
            exact Taken.append [_] (fun ht => .call position hd hn ht)
              (ih is.length (Nat.lt_succ_self _) is _ _ _ h rfl)
      | constant c => exact value _ is (.inl ⟨c, rfl⟩) rfl
      | field v n f => exact value _ is (.inr (.inl ⟨v, n, f, rfl⟩)) rfl
      | copy v => exact value _ is (.inr (.inr ⟨v, rfl⟩)) rfl

end Draft

/-- **The levels of a graph that was built are well built.** -/
theorem Graph.built_of_build {is : List Instruction} {g : Graph} (h : Graph.build is = .ok g) :
    g.Built ∧ g.first = 0 ∧ g.params = 0 := by
  obtain ⟨d', ht, hp, rfl⟩ := Draft.taken_of_buildFrom is 0 _ [] h
  obtain ⟨hs, hc, hf, hpar⟩ := ht.sound [] rfl (Draft.sound_start ..) (by
    show countFunctions 0 is = 0 + _
    rw [Nat.zero_add, List.append_nil])
  refine ⟨Draft.built_finish hs hp hc, ?_, ?_⟩
  · rw [Draft.finish_first hs, hf]
    rfl
  · show d'.propagate.params = 0
    rw [(Draft.SameLevel.propagate hs.reflects).params, hpar]
    rfl

end Dataflow
