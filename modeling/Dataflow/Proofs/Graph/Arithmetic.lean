import Dataflow.Proofs.Graph.Streams

/-!
# Numbers that are what they count

Numbers of values have 32 bits. The sums that building makes of them are checked, so none of them
wraps around. But a function declares its parameters with an unsigned number, and that is taken as a
signed one as it comes: from `2 ^ 31` parameters on it is negative.

* `Segment.openings`: the levels of instructions with the whole numbers that they start at;
* `Graph.Summed`: the numbers of a level are sums that did not wrap around;
* `Graph.Counts`: the numbers of a level are the whole numbers that they stand for;
* **`Graph.counts_iff_of_build`**: a graph that was built has the right numbers if and only if no
  function in it declares `2 ^ 31` parameters or more.
-/

namespace Dataflow

/-! ## The numbers of a level as sums -/

/-- The numbers of a level are sums that did not wrap around: of its first number and the number of
its parameters as it is taken, and of this sum and a place in the level. -/
structure Graph.Summed (g : Graph) : Prop where
  base : g.base.toInt = g.first.toInt + g.params.toInt32.toInt
  block : ∀ {i : Nat} {b : Block}, g.blocks[i]? = some b →
    b.id.toInt = g.base.toInt + (Int32.ofNat i).toInt
  body : ∀ {i : Nat} {id : ValueId} {body : Graph}, g.blocks[i]? = some (.function id body) →
    ∃ n ≤ g.blocks.length, body.first.toInt = g.base.toInt + (Int32.ofNat n).toInt

namespace Draft

/-- The numbers of a draft, and of all levels inside it, are sums that did not wrap around. -/
structure Summed (d : Draft) : Prop where
  base : d.base.toInt = d.first.toInt + d.params.toInt32.toInt
  function : ∀ {i : Nat} {b : Block}, d.functions[i]? = some b → ∃ body n,
    b = .function (d.base + Int32.ofNat i) body ∧ Sums d.base i ∧ n ≤ d.nextIndex ∧
      body.first.toInt = d.base.toInt + (Int32.ofNat n).toInt ∧ ∀ l ∈ Graph.levels body, Graph.Summed l
  value : ∀ {v : Nat} {b : Block}, d.values[v]? = some b → ∃ is,
    b = .steps (d.base + Int32.ofNat (d.functionCount + v)) is ∧ Sums d.base (d.functionCount + v)

namespace Summed

variable {d d₁ : Draft}

/-- An opened level has no blocks yet. -/
theorem start {first : ValueId} {params : UInt32} (openedAt : Nat) (rest : List Instruction)
    (h : (first + params.toInt32).toInt = first.toInt + params.toInt32.toInt) :
    (start first params openedAt rest).Summed :=
  ⟨h, fun hb => by simp [Draft.start] at hb, fun hb => by simp [Draft.start] at hb⟩

/-- What is noted of reads does not matter. -/
theorem of_same (h : d.Summed) (hl : SameLevel d d₁) : d₁.Summed := by
  constructor
  · rw [hl.base, hl.first, hl.params]
    exact h.base
  · intro i b hb
    rw [hl.base, hl.nextIndex]
    exact h.function (hl.functions ▸ hb)
  · intro v b hb
    rw [hl.base, hl.functionCount]
    exact h.value (hl.values ▸ hb)

/-- A value block, whose number is in range. -/
theorem addValue (h : d.Summed) (hn : Sums d.base d.nextIndex) (is : List Instruction) :
    (d.addValue is).Summed := by
  refine ⟨h.base, fun hb => ?_, fun hb => ?_⟩
  · obtain ⟨body, n, he, hi, hle, hfirst, hlevels⟩ := h.function hb
    refine ⟨body, n, he, hi, hle.trans ?_, hfirst, hlevels⟩
    show d.functionCount + d.values.size ≤ d.functionCount + (d.values.push _).size
    rw [Array.size_push]
    omega
  · rcases Sound.getElem?_push_eq_some.mp hb with hb | ⟨rfl, rfl⟩
    · exact h.value hb
    · exact ⟨is, rfl, hn⟩

/-- A function block, whose number is in range. -/
theorem withFunction (h : d.Summed) (hi : Sums d.base d.functions.size) (body : Graph)
    (hn : Sums d.base d.nextIndex) (hf : body.first = d.nextId)
    (hb : ∀ l ∈ Graph.levels body, Graph.Summed l) :
    (d.withFunction (.function (d.base + Int32.ofNat d.functions.size) body)).Summed := by
  refine ⟨h.base, fun hb' => ?_, h.value⟩
  rcases Sound.getElem?_push_eq_some.mp hb' with hb' | ⟨rfl, rfl⟩
  · exact h.function hb'
  · refine ⟨body, d.nextIndex, rfl, hi, Nat.le_refl _, ?_, hb⟩
    rw [hf]
    exact hn

/-- The finished level, with all levels inside it. -/
theorem finish (h : d.Summed) (hs : d.Sound) (hc : d.functions.size = d.functionCount) :
    ∀ l ∈ Graph.levels d.finish, Graph.Summed l := by
  have hbase : d.finish.base = d.base := finish_base hs
  have hlength : d.finish.blocks.length = d.nextIndex := by
    rw [finish_blocks hs, Array.length_toList, Array.size_append, hc]
    rfl
  have hblock {i : Nat} {b : Block} (hb : d.finish.blocks[i]? = some b) :
      d.functions[i]? = some b ∨ ∃ v, i = d.functionCount + v ∧ d.values[v]? = some b := by
    rwa [finish_blocks hs, getElem?_functions_append_values hc] at hb
  have hfunction {i : Nat} {id : ValueId} {body : Graph}
      (hb : d.finish.blocks[i]? = some (.function id body)) :
      ∃ n ≤ d.nextIndex, body.first.toInt = d.base.toInt + (Int32.ofNat n).toInt ∧
        ∀ l ∈ Graph.levels body, Graph.Summed l := by
    rcases hblock hb with hb | ⟨v, -, hb⟩
    · obtain ⟨body', n, he, -, hn, hfirst, hlevels⟩ := h.function hb
      cases he
      exact ⟨n, hn, hfirst, hlevels⟩
    · obtain ⟨is, he, -⟩ := h.value hb
      cases he
  intro l hl
  rcases Graph.mem_levels.mp hl with rfl | ⟨j, id, body, hb, hl⟩
  · refine ⟨?_, fun hb => ?_, fun hb => ?_⟩
    · rw [hbase, finish_first hs, finish_params hs]
      exact h.base
    · rw [hbase]
      rcases hblock hb with hf | ⟨v, rfl, hv⟩
      · obtain ⟨body, n, rfl, hi, -⟩ := h.function hf
        exact hi
      · obtain ⟨is, rfl, hsum⟩ := h.value hv
        exact hsum
    · obtain ⟨n, hn, hfirst, -⟩ := hfunction hb
      rw [hbase, hlength]
      exact ⟨n, hn, hfirst⟩
  · obtain ⟨-, -, -, hlevels⟩ := hfunction hb
    exact hlevels l hl

end Summed

/-- Noting reads leaves the level as it is. -/
theorem sameLevel_of_depend {d d₁ : Draft} {id : ValueId} {dst position : Nat}
    (h : d.depend id dst position = .ok d₁) : SameLevel d d₁ := by
  unfold depend at h
  cases ho : d.origin id position with
  | error e =>
    rw [ho] at h
    cases h
  | ok o =>
    rw [ho] at h
    cases o with
    | ambient =>
      cases h
      exact .refl d
    | outer =>
      cases h
      exact ⟨rfl, rfl, rfl, rfl, rfl, rfl, rfl⟩
    | block src =>
      dsimp only [bind, Except.bind] at h
      split at h
      · cases h
        exact .refl d
      · split at h
        · split at h <;> cases h <;> exact ⟨rfl, rfl, rfl, rfl, rfl, rfl, rfl⟩
        · cases h
          exact ⟨rfl, rfl, rfl, rfl, rfl, rfl, rfl⟩

theorem sameLevel_of_dependAll {d d₁ : Draft} {ids : List ValueId} {dst position : Nat}
    (h : d.dependAll dst position ids = .ok d₁) : SameLevel d d₁ := by
  induction ids generalizing d with
  | nil =>
    cases h
    exact .refl _
  | cons id ids ih =>
    rw [dependAll] at h
    cases hd : d.depend id dst position with
    | error e =>
      rw [hd] at h
      cases h
    | ok d₂ =>
      rw [hd] at h
      exact (sameLevel_of_depend hd).trans (ih h)

/-- No sum wraps around while a draft takes instructions. -/
theorem Takes.summed {d d' : Draft} {is : List Instruction} (h : Takes d is d') (hd : d.Summed) :
    d'.Summed := by
  induction h with
  | nil d => exact hd
  | argument position hdep _ ih =>
    have hs := hd.of_same (sameLevel_of_depend hdep)
    exact ih ⟨hs.base, hs.function, hs.value⟩
  | call position hdep hn _ ih => exact ih ((hd.of_same (sameLevel_of_depend hdep)).addValue hn _)
  | value position hi hp hdep hn _ ih =>
    exact ih ((hd.of_same (sameLevel_of_dependAll hdep)).addValue hn _)
  | @function d d₁ d' b params body is position tail hp hr hb hbp hadd _ ihb ih =>
    obtain ⟨hbs, hbc, hbf, -⟩ := hb.sound (.leave :: tail) rfl (sound_start ..) (by
      show countFunctions 0 (body ++ .leave :: tail) = 0 + _
      rw [Nat.zero_add])
    obtain ⟨d₀, hdep, rfl⟩ := addFunction_eq_ok hadd
    have hl := sameLevel_of_dependAll hdep
    have hs := (hd.of_same hl).withFunction (by rw [hl.base, hl.functions]; exact hr.function)
      b.finish (by rw [hl.base, hl.nextIndex]; exact hr.next)
      (by rw [finish_first hbs, hbf, nextId, nextId, hl.base, hl.nextIndex]; rfl)
      ((ihb (.start _ _ hr.base)).finish hbs hbc)
    rw [hl.base, hl.functions] at hs
    exact ih hs

end Draft

/-- **No sum that building makes of numbers wraps around.** -/
theorem Graph.summed_of_build {is : List Instruction} {g : Graph} (h : Graph.build is = .ok g) :
    ∀ l ∈ g.levels, l.Summed := by
  obtain ⟨d', ht, hp, rfl⟩ := Draft.taken_of_buildFrom is 0 _ [] h
  obtain ⟨hs, hc, -⟩ := ht.sound [] rfl (Draft.sound_start ..) (by
    show countFunctions 0 is = 0 + _
    rw [Nat.zero_add, List.append_nil])
  exact (ht.summed (.start _ _ rfl)).finish hs hc

/-! ## The numbers of levels as whole numbers -/

/-- A function body, or what is outside all of them, in whole numbers. -/
structure Opening where
  /-- The number it starts at. -/
  first : Nat
  params : Nat

namespace Segment

mutual

/-- The bodies in a segment of a level whose next value has the number `next`. -/
def opening (next : Nat) : Segment → List Opening
  | value _ _ => []
  | function params body =>
    ⟨next, params.toNat⟩ :: openings (next + params.toNat + functions body) body

/-- The bodies in segments, in order. -/
def openings (next : Nat) : List Segment → List Opening
  | [] => []
  | p :: ps => opening next p ++ openings (next + values [p]) ps

end

theorem length_le_length_codes (ps : List Segment) : ps.length ≤ (codes ps).length := by
  induction ps with
  | nil => exact Nat.le_refl 0
  | cons p ps ih =>
    have hp : 1 ≤ p.code.length := by cases p <;> simp [code]
    rw [codes, List.length_append, List.length_cons]
    omega

/-- A level starts where it should, up to a multiple of `2 ^ 32`. -/
structure Opens (o : Opening) (l : Graph) : Prop where
  first : l.first = .ofNat o.first
  params : l.params.toNat = o.params

mutual

theorem opens_of_graphOf {next : Nat} (p : Segment) {g : Graph} (hg : GraphOf next p g) :
    List.Forall₂ Opens (opening next p) g.levels := by
  cases p with
  | value args i =>
    rw [GraphOf] at hg
    exact hg.elim
  | function params body =>
    rw [GraphOf] at hg
    obtain ⟨hfirst, hparams, fs, hfs, hblocks⟩ := hg
    rw [opening, Graph.levels_eq, hblocks, Block.allLevels_append, allLevels_stepsOf, List.append_nil]
    exact .cons ⟨hfirst, by rw [hparams]⟩ (opens_of_functionsOf body hfs)

theorem opens_of_functionsOf {id next : Nat} (ps : List Segment) {fs : List Block}
    (hfs : FunctionsOf id next ps fs) :
    List.Forall₂ Opens (openings next ps) (Block.allLevels fs) := by
  cases ps with
  | nil =>
    rw [FunctionsOf] at hfs
    rw [hfs, openings, Block.allLevels]
    exact .nil
  | cons p ps =>
    rw [openings]
    cases p with
    | value args i =>
      rw [FunctionsOf] at hfs
      exact opens_of_functionsOf ps hfs
    | function params body =>
      rw [FunctionsOf] at hfs
      obtain ⟨g, fs, rfl, hg, hfs⟩ := hfs
      rw [Block.allLevels, Graph.levels_function]
      exact List.rel_append (opens_of_graphOf _ hg) (opens_of_functionsOf ps hfs)

end

end Segment

/-- The bodies of instructions, beginning with what is outside all functions. -/
def Instructions.openings (is : List Instruction) : List Opening :=
  Segment.opening 0 (.function 0 (Segment.parse is))

namespace Graph

/-- The numbers of a level are the whole numbers from `n` on: parameters come first, then blocks. -/
structure Counts (g : Graph) (n : Nat) : Prop where
  first : g.first.toInt = n
  base : g.base.toInt = n + g.params.toNat
  block : ∀ {i : Nat} {b : Block}, g.blocks[i]? = some b → b.id.toInt = n + g.params.toNat + i

/-- Sums that did not wrap around are right if the parameters are. -/
theorem Summed.counts {g : Graph} (h : g.Summed) {n : Nat} (hf : g.first.toInt = n)
    (hp : g.params.toNat < 2 ^ 31) (hlen : g.blocks.length < 2 ^ 31) : g.Counts n := by
  have hparams : g.params.toInt32.toInt = g.params.toNat := by
    have hn : g.params.toInt32 = Int32.ofNat g.params.toNat := by
      rw [← UInt32.toInt32_ofNat', UInt32.ofNat_toNat]
    rw [hn, Draft.toInt_ofNat hp]
  have hbase : g.base.toInt = n + g.params.toNat := by rw [h.base, hf, hparams]
  refine ⟨hf, hbase, fun {i b} hi => ?_⟩
  have hlt : i < g.blocks.length := (List.getElem?_eq_some_iff.mp hi).1
  rw [h.block hi, hbase, Draft.toInt_ofNat (by omega)]

end Graph

/-- A number that is right up to a multiple of `2 ^ 32` is right if it is close to it. -/
theorem toInt_eq_of_sum {id : ValueId} {base c n : Nat} (hid : id = .ofNat (base + c))
    (hsum : id.toInt = base + (Int32.ofNat n).toInt) (hc : c < 2 ^ 31) (hn : n < 2 ^ 31) :
    id.toInt = base + c := by
  have hmod : id.toInt % 2 ^ 32 = (base + c : Nat) % 2 ^ 32 := by
    rw [hid, Int32.toInt_ofNat']
    exact Int.bmod_emod
  rw [Draft.toInt_ofNat hn] at hsum
  omega

namespace Segment

mutual

/-- The levels of a function count if its number is right and no parameters get lost. -/
theorem counts_of_graphOf {next : Nat} (p : Segment) {g : Graph} (hg : GraphOf next p g)
    (hlen : p.code.length < 2 ^ 31) (hs : ∀ l ∈ g.levels, l.Summed) (hf : g.first.toInt = next)
    (hp : ∀ o ∈ opening next p, o.params < 2 ^ 31) :
    List.Forall₂ (fun o (l : Graph) => l.Counts o.first) (opening next p) g.levels := by
  cases p with
  | value args i =>
    rw [GraphOf] at hg
    exact hg.elim
  | function params body =>
    rw [GraphOf] at hg
    obtain ⟨-, rfl, fs, hfs, hblocks⟩ := hg
    have hle := length_le_length_codes body
    have hfunctions : functions body + values body = body.length := (length_eq body).symm
    have hblocksLen : g.blocks.length = body.length := by
      rw [hblocks, List.length_append, length_functionsOf hfs, length_stepsOf, length_eq]
    rw [code, List.length_append, List.length_cons, List.length_singleton] at hlen
    rw [opening, List.forall_mem_cons] at hp
    have hcounts : g.Counts next :=
      (hs g g.self_mem_levels).counts hf hp.1 (by omega)
    rw [opening, Graph.levels_eq, hblocks, Block.allLevels_append, allLevels_stepsOf, List.append_nil]
    refine .cons hcounts (counts_of_functionsOf body hfs (by omega) (by omega) (fun l hl => ?_)
      (fun id inner hi => ?_) hp.2)
    · refine hs l ?_
      rw [Graph.levels_eq, hblocks, Block.allLevels_append]
      exact List.mem_cons_of_mem _ (List.mem_append_left _ hl)
    · obtain ⟨i, hi⟩ := List.mem_iff_getElem?.mp
        (show .function id inner ∈ g.blocks by rw [hblocks]; exact List.mem_append_left _ hi)
      obtain ⟨n, hn, hsum⟩ := (hs g g.self_mem_levels).body hi
      rw [hcounts.base] at hsum
      exact ⟨n, by omega, hsum⟩

/-- The levels of the functions of a level whose numbers behind the parameters start at `b`. -/
theorem counts_of_functionsOf {id b c : Nat} (ps : List Segment) {fs : List Block}
    (hfs : FunctionsOf id (b + c) ps fs) (hc : c + values ps < 2 ^ 31)
    (hlen : (codes ps).length < 2 ^ 31) (hs : ∀ l ∈ Block.allLevels fs, Graph.Summed l)
    (hsum : ∀ id body, Block.function id body ∈ fs →
      ∃ n < 2 ^ 31, body.first.toInt = b + (Int32.ofNat n).toInt)
    (hp : ∀ o ∈ openings (b + c) ps, o.params < 2 ^ 31) :
    List.Forall₂ (fun o (l : Graph) => l.Counts o.first) (openings (b + c) ps)
      (Block.allLevels fs) := by
  cases ps with
  | nil =>
    rw [FunctionsOf] at hfs
    rw [hfs, openings, Block.allLevels]
    exact .nil
  | cons p ps =>
    rw [codes, List.length_append] at hlen
    rw [openings, List.forall_mem_append] at hp
    rw [openings]
    cases p with
    | value args i =>
      rw [FunctionsOf] at hfs
      rw [values] at hc
      exact counts_of_functionsOf (c := c + 1) ps hfs (by omega) (by omega) hs hsum hp.2
    | function params body =>
      rw [FunctionsOf] at hfs
      obtain ⟨g, fs, rfl, hg, hfs⟩ := hfs
      rw [values] at hc
      rw [Block.allLevels, Graph.levels_function, List.forall_mem_append] at hs
      obtain ⟨n, hn, hfirst⟩ := hsum _ g List.mem_cons_self
      have hof := hg
      rw [GraphOf] at hof
      have hf : g.first.toInt = (b + c : Nat) :=
        toInt_eq_of_sum hof.1 hfirst (by omega) hn
      rw [Block.allLevels, Graph.levels_function]
      exact List.rel_append (counts_of_graphOf _ hg (by omega) hs.1 hf hp.1)
        (counts_of_functionsOf (b := b) (c := c) ps hfs hc (by omega) hs.2
          (fun id body hmem => hsum id body (List.mem_cons_of_mem _ hmem)) hp.2)

end

end Segment

namespace Graph

/-- **A graph that was built has the right numbers if and only if no function in it declares
`2 ^ 31` parameters or more.** Up to multiples of `2 ^ 32` every level starts at its number, and no
sum that gave a number wrapped around. -/
theorem counts_iff_of_build {is : List Instruction} {g : Graph} (hlen : is.length < 2 ^ 30)
    (h : Graph.build is = .ok g) :
    List.Forall₂ (fun o l => l.first = .ofNat o.first ∧ l.params.toNat = o.params ∧ l.Summed)
      (Instructions.openings is) g.levels ∧
    (List.Forall₂ (fun o l => l.Counts o.first) (Instructions.openings is) g.levels ↔
      ∀ o ∈ Instructions.openings is, o.params < 2 ^ 31) := by
  obtain ⟨hcodes, -, hgraph, -⟩ := lays_of_build h
  have hopens : List.Forall₂ Segment.Opens (Instructions.openings is) g.levels :=
    Segment.opens_of_graphOf _ hgraph
  have hsummed := summed_of_build h
  obtain ⟨hlength, hzip⟩ := List.forall₂_iff_zip.mp hopens
  refine ⟨List.forall₂_iff_zip.mpr ⟨hlength, fun {o l} hx => ?_⟩, fun hcounts o ho => ?_, fun hp => ?_⟩
  · have ho := hzip hx
    exact ⟨ho.first, ho.params, hsummed l (List.of_mem_zip hx).2⟩
  · -- the number behind the parameters would be out of range
    obtain ⟨l, hx⟩ : ∃ l, (o, l) ∈ (Instructions.openings is).zip g.levels := by
      obtain ⟨i, hi, rfl⟩ := List.mem_iff_getElem.mp ho
      exact ⟨g.levels[i], List.mem_iff_getElem.mpr ⟨i, by rw [List.length_zip]; omega, by simp⟩⟩
    have hc := (List.forall₂_iff_zip.mp hcounts).2 hx
    have hlt := l.base.toInt_lt
    rw [hc.base, (hzip hx).params] at hlt
    omega
  · refine Segment.counts_of_graphOf _ hgraph ?_ hsummed ?_ hp
    · rw [Segment.code, hcodes]
      simp
      omega
    · rw [(built_of_build h).2.1]
      rfl

/-- A function that reads its first parameter, inside another function. -/
def nestedReader : List Instruction := [.enter 1, .enter 2, .copy 3, .leave, .leave]

theorem counts_iff_of_build_nested : ∃ g : Graph, Graph.build nestedReader = .ok g ∧
    (Instructions.openings nestedReader).map Opening.first = [0, 1, 3] ∧
    List.Forall₂ (fun o l => l.Counts o.first) (Instructions.openings nestedReader) g.levels := by
  have h : Graph.build nestedReader = .ok ⟨0, 0, [.function 0 ⟨1, 1, [.function 2
      ⟨3, 2, [.steps 5 [.copy 3]], [[]]⟩], [[]]⟩], [[]]⟩ := by
    cbv
  have ho : Instructions.openings nestedReader = [⟨0, 0⟩, ⟨1, 1⟩, ⟨3, 2⟩] := rfl
  have hl : nestedReader.length < 2 ^ 30 := by decide
  refine ⟨_, h, by rw [ho]; rfl, (counts_iff_of_build hl h).2.mpr ?_⟩
  rw [ho]
  simp

/-- A function with as many parameters as can be declared. -/
def crowdedFunction : List Instruction := [.enter 0xffffffff, .constant 0, .leave]

/-- **A function with `2 ^ 32 - 1` parameters has the wrong numbers**: its first value has the number
of the function itself. -/
theorem not_counts_crowded : ∃ g l : Graph, Graph.build crowdedFunction = .ok g ∧ l ∈ g.levels ∧
    l.first = 1 ∧ ¬ l.Counts 1 := by
  have h : Graph.build crowdedFunction = .ok ⟨0, 0, [.function 0
      ⟨1, 0xffffffff, [.steps 0 [.constant 0]], [[]]⟩], [[]]⟩ := by
    cbv
  refine ⟨_, ⟨1, 0xffffffff, [.steps 0 [.constant 0]], [[]]⟩, h, ?_, rfl, fun hc => ?_⟩
  · simp [levels, Block.levels, Block.allLevels]
  · have hblock := hc.block (i := 0) rfl
    simp [Block.id] at hblock

/-- With half as many a sum leaves the range, and building stops. -/
example : Graph.build [.enter 0x7fffffff, .copy (-1), .leave] = .error .overflow := by
  cbv

end Graph

end Dataflow
