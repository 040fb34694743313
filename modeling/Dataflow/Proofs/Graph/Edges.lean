import Dataflow.Proofs.Graph.Levels

/-!
# The edges of a graph

A block waits for exactly those blocks that make what it reads, where a function reads what its body
reads from around it and what the functions do that it can come to call.

* `Block.Mentions`: a block reads a value that is not made in it;
* `Graph.Exact`: the edges of a level are those that its blocks declare;
* `Graph.InRange`: the numbers of all levels are natural numbers that fit;
* `Draft.Neat`: no block is listed twice;
* **`Graph.exact_of_build`**: the edges of all levels of a graph that was built.
-/

namespace Dataflow

open Relation

/-- A block reads the value `id` of a level around it: one of its instructions does, or an instruction
in the body of a function, at any depth, where the number is not one of the body's own. -/
inductive Block.Mentions (id : ValueId) : Block → Prop where
  | steps (v : ValueId) {is : List Instruction} {i : Instruction} (hi : i ∈ is)
    (ho : i.operand? = some id) : Mentions id (.steps v is)
  | function (v : ValueId) {body : Graph} {b : Block} (hb : b ∈ body.blocks) (hid : id < body.first)
    (h : Mentions id b) : Mentions id (.function v body)

mutual

theorem Block.mentions_of_mem_needs {id : ValueId} : (b : Block) → id ∈ b.needs → b.Mentions id
  | .steps v is, h => by
    rw [needs, List.mem_filterMap] at h
    obtain ⟨i, hi, ho⟩ := h
    exact .steps v hi ho
  | .function v ⟨first, params, blocks, dependents⟩, h => by
    rw [needs, List.mem_filter, decide_eq_true_iff] at h
    obtain ⟨b, hb, hm⟩ := mentions_of_mem_allNeeds blocks h.1
    exact .function v hb h.2.2 hm

theorem Block.mentions_of_mem_allNeeds {id : ValueId} :
    (bs : List Block) → id ∈ allNeeds bs → ∃ b ∈ bs, b.Mentions id
  | [], h => by
    rw [allNeeds] at h
    cases h
  | b :: bs, h => by
    rw [allNeeds, List.mem_append] at h
    rcases h with h | h
    · exact ⟨b, List.mem_cons_self, mentions_of_mem_needs b h⟩
    · obtain ⟨b', hb, hm⟩ := mentions_of_mem_allNeeds bs h
      exact ⟨b', List.mem_cons_of_mem _ hb, hm⟩

end

/-- What a block reads from the levels around it are the values it needs. -/
theorem Block.mentions_iff {id : ValueId} (h0 : 0 ≤ id) {b : Block} :
    b.Mentions id ↔ id ∈ b.needs := by
  refine ⟨fun h => ?_, mentions_of_mem_needs b⟩
  induction h with
  | steps v hi ho =>
    rw [needs, List.mem_filterMap]
    exact ⟨_, hi, ho⟩
  | function v hb hid _ ih => exact mem_needs_function.mpr ⟨h0, hid, _, hb, ih⟩

namespace Graph

/-- The body of function `i` reads the sibling function `j`. -/
def Uses (g : Graph) (i j : Nat) : Prop := ∃ bi bj, g.blocks[i]? = some bi ∧ g.blocks[j]? = some bj ∧
  bi.isFunction = true ∧ bj.isFunction = true ∧ bi.Mentions bj.id

/-- The edges of a level are the dependencies that its blocks declare. -/
structure Exact (g : Graph) : Prop where
  /-- A value block waits for the value blocks that it reads. -/
  value_value : ∀ {i j bi bj}, g.blocks[i]? = some bi → g.blocks[j]? = some bj →
    bi.isFunction = false → bj.isFunction = false → (j ∈ g.waiting i ↔ bj.Mentions bi.id)
  /-- A function waits for the value blocks that it, or a function it reaches, reads. -/
  value_function : ∀ {i j bi bj}, g.blocks[i]? = some bi → g.blocks[j]? = some bj →
    bi.isFunction = false → bj.isFunction = true → (j ∈ g.waiting i ↔
      ∃ k bk, ReflTransGen g.Uses j k ∧ g.blocks[k]? = some bk ∧ bk.Mentions bi.id)
  /-- A value block waits for the functions that it reads and for those they reach. -/
  function_value : ∀ {i j bi bj}, g.blocks[i]? = some bi → g.blocks[j]? = some bj →
    bi.isFunction = true → bj.isFunction = false → (j ∈ g.waiting i ↔
      ∃ k bk, g.blocks[k]? = some bk ∧ bk.isFunction = true ∧ bj.Mentions bk.id ∧
        ReflTransGen g.Uses k i)
  /-- No function waits for a function. -/
  function_function : ∀ {i j bi bj}, g.blocks[i]? = some bi → g.blocks[j]? = some bj →
    bi.isFunction = true → bj.isFunction = true → j ∉ g.waiting i
  irreflexive : ∀ i, i ∉ g.waiting i
  /-- Edges lead from blocks to blocks. -/
  bounded : ∀ {i j}, j ∈ g.waiting i → i < g.blocks.length ∧ j < g.blocks.length
  nodup : ∀ i, (g.waiting i).Nodup

/-- The numbers of all levels are natural numbers that fit. -/
def InRange (g : Graph) : Prop := ∀ l ∈ g.levels, 0 ≤ l.first.toInt ∧ l.Fits

section Level

variable {g : Graph} {i j : Nat} {bi bj : Block}

/-- The number of a block is a natural number. -/
theorem WellBuilt.id_nonneg (h : g.WellBuilt) (h0 : 0 ≤ g.first.toInt) (hfit : g.Fits)
    (hj : g.blocks[j]? = some bj) : 0 ≤ bj.id.toInt := by
  have hlt : j < g.blocks.length := (List.getElem?_eq_some_iff.mp hj).1
  rw [h.id_eq hj, base_add, hfit.toInt_slot (by unfold Level.slotCount; omega)]
  omega

/-- A block makes the value that has its number. -/
theorem WellBuilt.makes_iff (h : g.WellBuilt) (h0 : 0 ≤ g.first.toInt) (hfit : g.Fits)
    (hj : g.blocks[j]? = some bj) {id : ValueId} : g.Makes id j ↔ id = bj.id := by
  have hlt : j < g.blocks.length := (List.getElem?_eq_some_iff.mp hj).1
  have hbase : g.base.toInt = g.first.toInt + g.params.toNat := by
    rw [base_eq]
    exact hfit.toInt_slot (by unfold Level.slotCount; omega)
  have hid : bj.id = g.slot (g.params.toNat + j) := by rw [h.id_eq hj, base_add]
  refine ⟨fun hm => by rw [hid, hm.eq], ?_⟩
  rintro rfl
  have hint : bj.id.toInt = g.first.toInt + (g.params.toNat + j) := by
    rw [hid, hfit.toInt_slot (by unfold Level.slotCount; omega), Int.natCast_add]
  refine ⟨?_, ?_, ?_⟩
  · rintro (hneg | ⟨-, hlow⟩)
    · rw [Int32.lt_iff_toInt_lt] at hneg
      have hz : (0 : Int32).toInt = 0 := rfl
      omega
    · rw [Int32.lt_iff_toInt_lt, hbase] at hlow
      omega
  · rw [Int32.le_iff_toInt_le]
    omega
  · rw [Int32.toInt_sub, hint, hbase]
    have hf := hfit
    unfold Fits Level.slotCount at hf
    rw [Int.bmod_eq_of_le] <;> omega

/-- One block reads what another one makes. -/
theorem WellBuilt.reads_iff (h : g.WellBuilt) (h0 : 0 ≤ g.first.toInt) (hfit : g.Fits)
    (hi : g.blocks[i]? = some bi) (hj : g.blocks[j]? = some bj) :
    g.Reads i j ↔ bi.Mentions bj.id := by
  have hid : 0 ≤ bj.id := by
    rw [Int32.le_iff_toInt_le]
    exact h.id_nonneg h0 hfit hj
  rw [Block.mentions_iff hid, Reads]
  simp only [h.makes_iff h0 hfit hj]
  refine ⟨?_, fun hm => ⟨bi, hi, _, hm, rfl⟩⟩
  rintro ⟨b, hb, id, hm, rfl⟩
  rw [hi] at hb
  cases hb
  exact hm

/-- Functions reach each other through what their bodies read. -/
theorem WellBuilt.reaches_eq (h : g.WellBuilt) (h0 : 0 ≤ g.first.toInt) (hfit : g.Fits) :
    g.Reaches = ReflTransGen g.Uses := by
  have hlen : g.functionCount ≤ g.blocks.length := (List.takeWhile_prefix _).length_le
  have he : g.Links = g.Uses := by
    funext i j
    refine propext ⟨?_, ?_⟩
    · rintro ⟨hi, hj, hr⟩
      have hbi := List.getElem?_eq_getElem (Nat.lt_of_lt_of_le hi hlen)
      have hbj := List.getElem?_eq_getElem (Nat.lt_of_lt_of_le hj hlen)
      exact ⟨_, _, hbi, hbj, (h.isFunction_iff hbi).mpr hi, (h.isFunction_iff hbj).mpr hj,
        (h.reads_iff h0 hfit hbi hbj).mp hr⟩
    · rintro ⟨bi, bj, hbi, hbj, hi, hj, hm⟩
      exact ⟨(h.isFunction_iff hbi).mp hi, (h.isFunction_iff hbj).mp hj,
        (h.reads_iff h0 hfit hbi hbj).mpr hm⟩
  rw [Reaches, he]

/-- The edges of a level that was built and lists no block twice. -/
theorem WellBuilt.exact (h : g.WellBuilt) (h0 : 0 ≤ g.first.toInt) (hfit : g.Fits)
    (hn : ∀ i, (g.waiting i).Nodup) : g.Exact := by
  have hlen : g.functionCount ≤ g.blocks.length := (List.takeWhile_prefix _).length_le
  have hlt {i : Nat} {b : Block} (hb : g.blocks[i]? = some b) : i < g.blocks.length :=
    (List.getElem?_eq_some_iff.mp hb).1
  have function {i : Nat} {b : Block} (hb : g.blocks[i]? = some b) (hf : b.isFunction = true) :
      i < g.functionCount := (h.isFunction_iff hb).mp hf
  have value {i : Nat} {b : Block} (hb : g.blocks[i]? = some b) (hf : b.isFunction = false) :
      g.functionCount ≤ i := by
    refine Nat.not_lt.mp fun hi => ?_
    rw [(h.isFunction_iff hb).mpr hi] at hf
    cases hf
  have bounded {i j : Nat} (hj : j ∈ g.waiting i) : i < g.blocks.length ∧ j < g.blocks.length := by
    refine ⟨Nat.not_le.mp fun hi => ?_, ?_⟩
    · rw [Level.waiting, List.getD_eq_default _ _ (by rw [h.dependents_length]; exact hi)] at hj
      cases hj
    · rcases (h.waiting_iff.mp hj).2 with ⟨-, b, hb, -⟩ | ⟨-, -, f, -, ⟨b, hb, -⟩, -⟩ | ⟨hi, -⟩
      · exact hlt hb
      · exact hlt hb
      · omega
  refine ⟨fun {i j bi bj} hi hj hfi hfj => ?_, fun {i j bi bj} hi hj hfi hfj => ?_,
    fun {i j bi bj} hi hj hfi hfj => ?_, fun {i j bi bj} hi hj hfi hfj hw => ?_, fun i hi => ?_,
    bounded, hn⟩
  · have hci := value hi hfi
    have hcj := value hj hfj
    rw [h.waiting_iff, ← h.reads_iff h0 hfit hj hi]
    constructor
    · rintro ⟨-, ⟨-, hr⟩ | ⟨-, hlow, -⟩ | ⟨hlow, -⟩⟩
      · exact hr
      · omega
      · omega
    · intro hr
      refine ⟨?_, .inl ⟨hcj, hr⟩⟩
      -- what a value block reads stands before it
      obtain ⟨b, hb, id, hid, hm⟩ := hr
      obtain ⟨k, -, hk, hlt⟩ := h.made hb hid hm.1 hm.2.1
      have := hm.unique hk ▸ hlt hcj
      omega
  · have hci := value hi hfi
    have hcj := function hj hfj
    rw [h.waiting_iff]
    constructor
    · rintro ⟨-, ⟨hlow, -⟩ | ⟨hlow, -⟩ | ⟨-, -, k, hreach, hr⟩⟩
      · omega
      · omega
      · obtain ⟨bk, hk, -⟩ := id hr
        exact ⟨k, bk, h.reaches_eq h0 hfit ▸ hreach, hk, (h.reads_iff h0 hfit hk hi).mp hr⟩
    · rintro ⟨k, bk, hreach, hk, hm⟩
      exact ⟨by omega, .inr (.inr ⟨hcj, hci, k, h.reaches_eq h0 hfit ▸ hreach,
        (h.reads_iff h0 hfit hk hi).mpr hm⟩)⟩
  · have hci := function hi hfi
    have hcj := value hj hfj
    rw [h.waiting_iff]
    constructor
    · rintro ⟨-, ⟨-, hr⟩ | ⟨-, -, k, hk, hr, hreach⟩ | ⟨hlow, -⟩⟩
      · exact ⟨i, bi, hi, hfi, (h.reads_iff h0 hfit hj hi).mp hr, .refl⟩
      · have hbk := List.getElem?_eq_getElem (Nat.lt_of_lt_of_le hk hlen)
        exact ⟨k, _, hbk, (h.isFunction_iff hbk).mpr hk, (h.reads_iff h0 hfit hj hbk).mp hr,
          h.reaches_eq h0 hfit ▸ hreach⟩
      · omega
    · rintro ⟨k, bk, hk, hfk, hm, hreach⟩
      exact ⟨by omega, .inr (.inl ⟨hcj, hci, k, function hk hfk,
        (h.reads_iff h0 hfit hj hk).mpr hm, h.reaches_eq h0 hfit ▸ hreach⟩)⟩
  · have hci := function hi hfi
    have hcj := function hj hfj
    rcases (h.waiting_iff.mp hw).2 with ⟨hlow, -⟩ | ⟨hlow, -⟩ | ⟨-, hlow, -⟩ <;> omega
  · exact (h.waiting_iff.mp hi).1 rfl

end Level

end Graph

/-! ## No block is listed twice -/

theorem nodup_pushNew {α : Type} [BEq α] [LawfulBEq α] {xs : Array α} (h : xs.toList.Nodup) (x : α) :
    (pushNew xs x).toList.Nodup := by
  unfold pushNew
  split
  · exact h
  · rename_i hx
    rw [Array.toList_push, List.nodup_append]
    refine ⟨h, List.nodup_singleton x, fun a ha b hb => ?_⟩
    rw [List.mem_singleton] at hb
    rintro rfl
    exact hx (Array.contains_iff_mem.mpr (Array.mem_toList_iff.mp (hb ▸ ha)))

/-- Rows that have one more element at most stay without repetitions. -/
theorem nodup_modify_pushNew {rows : Array (Array Nat)} (h : ∀ row ∈ rows, row.toList.Nodup)
    (s t : Nat) : ∀ row ∈ rows.modify s (pushNew · t), row.toList.Nodup := by
  intro row hrow
  obtain ⟨k, hk⟩ := Array.mem_iff_getElem?.mp hrow
  rw [Array.getElem?_modify] at hk
  split at hk
  · rw [Option.map_eq_some_iff] at hk
    obtain ⟨row', hrow', rfl⟩ := hk
    exact nodup_pushNew (h row' (Array.mem_of_getElem? hrow')) t
  · exact h row (Array.mem_of_getElem? hk)

namespace Draft

/-- No block is listed twice as waiting, nor in the functions of the draft. -/
structure Neat (d : Draft) : Prop where
  rows : ∀ row ∈ d.dependents, row.toList.Nodup
  functions : ∀ b ∈ d.functions, ∀ l ∈ b.levels, ∀ i, (l.waiting i).Nodup

namespace Neat

variable {d d' : Draft}

theorem start (first : ValueId) (params : UInt32) (openedAt : Nat) (rest : List Instruction) :
    (start first params openedAt rest).Neat := by
  refine ⟨fun row hrow => ?_, fun b hb => ?_⟩
  · rw [(Array.mem_replicate.mp hrow).2]
    exact List.nodup_nil
  · exact absurd hb (Array.not_mem_empty b)

theorem addEdge (h : d.Neat) (src dst : Nat) : (d.addEdge src dst).Neat :=
  ⟨nodup_modify_pushNew h.rows src dst, h.functions⟩

theorem depend (h : d.Neat) {id : ValueId} {dst position : Nat}
    (hd : d.depend id dst position = .ok d') : d'.Neat := by
  unfold Draft.depend at hd
  cases ho : d.origin id position with
  | error e =>
    rw [ho] at hd
    cases hd
  | ok o =>
    rw [ho] at hd
    cases o with
    | ambient | outer =>
      cases hd
      exact ⟨h.rows, h.functions⟩
    | block src =>
      dsimp only [bind, Except.bind] at hd
      split at hd
      · cases hd
        exact h
      · split at hd
        · split at hd
          · cases hd
            exact ⟨h.rows, h.functions⟩
          · cases hd
            refine addEdge ?_ src dst
            exact ⟨h.rows, h.functions⟩
        · cases hd
          exact h.addEdge src dst

theorem dependAll (h : d.Neat) {ids : List ValueId} {dst position : Nat}
    (hd : d.dependAll dst position ids = .ok d') : d'.Neat := by
  induction ids generalizing d with
  | nil =>
    cases hd
    exact h
  | cons id ids ih =>
    rw [Draft.dependAll] at hd
    cases h₁ : d.depend id dst position with
    | error e =>
      rw [h₁] at hd
      cases hd
    | ok d₁ =>
      rw [h₁] at hd
      exact ih (h.depend h₁) hd

theorem addValue (h : d.Neat) (is : List Instruction) : (d.addValue is).Neat := by
  refine ⟨fun row hrow => ?_, h.functions⟩
  rcases Array.mem_push.mp hrow with hrow | rfl
  · exact h.rows row hrow
  · exact List.nodup_nil

theorem foldl {γ : Type} {f : Draft → γ → Draft} (hf : ∀ d x, d.Neat → (f d x).Neat) (xs : List γ)
    (h : d.Neat) : (xs.foldl f d).Neat := by
  induction xs generalizing d with
  | nil => exact h
  | cons x xs ih => exact ih (hf d x h)

theorem propagate (h : d.Neat) : d.propagate.Neat := by
  refine foldl (fun d' f hd => ?_) _ h
  rw [← Array.foldl_toList]
  refine foldl (fun d'' s hd' => ?_) _ hd
  exact foldl (fun d r hd => hd.addEdge s r) _ (foldl (fun d v hd => hd.addEdge v f) _ hd')

/-- The finished level lists no block twice, and neither does a level inside it. -/
theorem finish (h : d.Neat) (hs : d.Sound) {l : Graph} (hl : l ∈ d.finish.levels) (i : Nat) :
    (l.waiting i).Nodup := by
  rcases Graph.mem_levels.mp hl with rfl | ⟨j, id, body, hb, hl⟩
  · show ((d.propagate.dependents.toList.map Array.toList).getD i []).Nodup
    rw [List.getD_eq_getElem?_getD, List.getElem?_map, Array.getElem?_toList]
    cases hr : d.propagate.dependents[i]? with
    | none => exact List.nodup_nil
    | some row => exact h.propagate.rows row (Array.mem_of_getElem? hr)
  · have hmem := List.mem_of_getElem? hb
    rw [finish_blocks hs, Array.toList_append, List.mem_append] at hmem
    rcases hmem with hmem | hmem
    · refine h.functions _ (Array.mem_toList_iff.mp hmem) l ?_ i
      rwa [Graph.levels_function]
    · obtain ⟨v, hv⟩ := List.mem_iff_getElem?.mp hmem
      obtain ⟨is, he⟩ := hs.value (Array.getElem?_toList ▸ hv)
      cases he

end Neat

/-- A draft stays neat while it takes instructions. -/
theorem Takes.neat {d d' : Draft} {is : List Instruction} (h : Takes d is d') (hd : d.Neat) :
    d'.Neat := by
  induction h with
  | nil d => exact hd
  | argument position hdep _ ih =>
    have hn := hd.depend hdep
    exact ih ⟨hn.rows, hn.functions⟩
  | call position hdep _ _ ih => exact ih ((hd.depend hdep).addValue _)
  | value position hi hp hdep _ _ ih => exact ih ((hd.dependAll hdep).addValue _)
  | @function d d₁ d' b params body is position tail hp _ hb hbp hadd _ ihb ih =>
    have hbn : b.Neat := ihb (.start ..)
    obtain ⟨hbs, -⟩ := hb.sound (.leave :: tail) rfl (sound_start ..) (by
      show countFunctions 0 (body ++ .leave :: tail) = 0 + _
      rw [Nat.zero_add])
    obtain ⟨d₀, hdep, rfl⟩ := addFunction_eq_ok hadd
    have hn := hd.dependAll hdep
    refine ih ⟨hn.rows, fun f hf l hl => ?_⟩
    rcases Array.mem_push.mp hf with hf | rfl
    · exact hn.functions f hf l hl
    · exact hbn.finish hbs (Graph.levels_function _ _ ▸ hl)

end Draft

/-- **The edges of every level of a graph that was built are exactly the dependencies that its blocks
declare.** -/
theorem Graph.exact_of_build {is : List Instruction} {g : Graph} (h : Graph.build is = .ok g)
    (hr : g.InRange) {l : Graph} (hl : l ∈ g.levels) : l.Exact := by
  obtain ⟨hbuilt, -, -⟩ := built_of_build h
  obtain ⟨d', ht, hp, rfl⟩ := Draft.taken_of_buildFrom is 0 _ [] h
  obtain ⟨hs, -⟩ := ht.sound [] rfl (Draft.sound_start ..) (by
    show countFunctions 0 is = 0 + _
    rw [Nat.zero_add, List.append_nil])
  have hneat : d'.Neat := ht.neat (.start ..)
  exact (hbuilt.of_mem_levels hl).level.exact (hr l hl).1 (hr l hl).2 fun i => hneat.finish hs hl i

/-- Of two functions the first reads the second one, which reads a value: both wait for the value. -/
theorem Graph.exact_of_build_captures : ∃ g : Graph,
    Graph.build [.constant 0, .enter 0, .call 1, .leave, .enter 0, .copy 2, .leave, .call 0] = .ok g ∧
      g.InRange ∧ g.waiting 2 = [1, 0] ∧ ∀ l ∈ g.levels, l.Exact := by
  have h : Graph.build
      [.constant 0, .enter 0, .call 1, .leave, .enter 0, .copy 2, .leave, .call 0] =
        .ok ⟨0, 0, [.function 0 ⟨3, 0, [.steps 3 [.call 1]], [[]]⟩,
          .function 1 ⟨3, 0, [.steps 3 [.copy 2]], [[]]⟩, .steps 2 [.constant 0],
          .steps 3 [.call 0]], [[3], [3], [1, 0], []]⟩ := by
    cbv
  refine ⟨_, h, ?_, rfl, fun l hl => Graph.exact_of_build h ?_ hl⟩ <;>
    simp [InRange, levels, Block.levels, Block.allLevels, Fits, Level.slotCount]

end Dataflow
