import Dataflow.Proofs.Graph.Levels
import Dataflow.Proofs.Graph.Segments

/-!
# Instructions as a tree

A list of instructions that is well formed falls into segments in one way only. Every level of the
graph that is built from it belongs to the segments of one function body, and a function reads only
what stands before it among those.

* `Segment.parse`: the segments of a list of instructions;
* `Segment.levels`: the segments of all function bodies, in the order of `Graph.levels`;
* `Segment.Lays`: a level of a graph comes from segments;
* **`Graph.lays_of_build`**: every level of a graph that was built comes from the segments of its
  function body.
-/

namespace Dataflow

namespace Segment

/-- The segments of a function body that goes on with the given instructions: `ps` have been found,
`args` wait for their call, and `around` is what has been found of the bodies around this one. -/
def parseFrom (args : List ValueId) (ps : List Segment) (around : List (UInt32 × List Segment)) :
    List Instruction → List Segment
  | [] => ps
  | .argument id :: is => parseFrom (args ++ [id]) ps around is
  | .enter params :: is => parseFrom [] [] ((params, ps) :: around) is
  | .leave :: is =>
    match around with
    | [] => ps
    | (params, outer) :: around => parseFrom [] (outer ++ [function params ps]) around is
  | i :: is => parseFrom [] (ps ++ [value args i]) around is

/-- The segments of a list of instructions. -/
def parse (is : List Instruction) : List Segment := parseFrom [] [] [] is

mutual

/-- The segments of the bodies in a segment. -/
def inner : Segment → List (List Segment)
  | value _ _ => []
  | function _ body => body :: allInner body

/-- The segments of the bodies in segments, in order. -/
def allInner : List Segment → List (List Segment)
  | [] => []
  | p :: ps => inner p ++ allInner ps

end

/-- The segments of all bodies, each before the bodies inside it. -/
def levels (ps : List Segment) : List (List Segment) := ps :: allInner ps

theorem parseFrom_arguments (args : List ValueId) (more : List ValueId) (ps : List Segment)
    (around : List (UInt32 × List Segment)) (is : List Instruction) :
    parseFrom args ps around (more.map .argument ++ is) = parseFrom (args ++ more) ps around is := by
  induction more generalizing args with
  | nil => simp
  | cons a more ih =>
    have hstep : parseFrom args ps around (.argument a :: (more.map .argument ++ is)) =
        parseFrom (args ++ [a]) ps around (more.map .argument ++ is) := rfl
    rw [List.map_cons, List.cons_append, hstep, ih, List.append_assoc]
    rfl

mutual

theorem parseFrom_code {p : Segment} (h : p.Regular) (ps : List Segment)
    (around : List (UInt32 × List Segment)) (is : List Instruction) :
    parseFrom [] ps around (p.code ++ is) = parseFrom [] (ps ++ [p]) around is := by
  cases p with
  | value args i =>
    rw [Regular] at h
    rw [code, List.append_assoc, parseFrom_arguments, List.singleton_append]
    cases i with
    | call | constant | field | copy => rfl
    | argument | enter | leave => exact h.elim
  | function params body =>
    rw [Regular] at h
    have hbody := parseFrom_codes h [] ((params, ps) :: around) ([.leave] ++ is)
    rw [code, List.append_assoc]
    exact hbody

theorem parseFrom_codes {qs : List Segment} (h : AllRegular qs) (ps : List Segment)
    (around : List (UInt32 × List Segment)) (is : List Instruction) :
    parseFrom [] ps around (codes qs ++ is) = parseFrom [] (ps ++ qs) around is := by
  cases qs with
  | nil => simp [codes]
  | cons q qs =>
    rw [AllRegular] at h
    rw [codes, List.append_assoc, parseFrom_code h.1, parseFrom_codes h.2, List.append_assoc]
    rfl

end

/-- Instructions fall into segments in one way only. -/
theorem parse_codes {ps : List Segment} (h : AllRegular ps) : parse (codes ps) = ps := by
  have := parseFrom_codes h [] [] []
  rw [List.append_nil, List.nil_append] at this
  exact this

/-- The number of the block of the segment at a position. -/
def index (ps : List Segment) (p : Nat) : Nat :=
  match ps[p]? with
  | some (function _ _) => functions (ps.take p)
  | some (value _ _) | none => functions ps + values (ps.take p)

theorem index_function {ps : List Segment} {q : Nat} {params : UInt32} {body : List Segment}
    (h : ps[q]? = some (function params body)) : index ps q = functions (ps.take q) := by
  rw [index, h]

theorem index_value {ps : List Segment} {p : Nat} {args : List ValueId} {i : Instruction}
    (h : ps[p]? = some (value args i)) : index ps p = functions ps + values (ps.take p) := by
  rw [index, h]

/-- A level that comes from segments: each becomes the block of its index. -/
structure Lays (ps : List Segment) (l : Graph) : Prop where
  functionCount : l.functionCount = functions ps
  length : l.blocks.length = functions ps + values ps
  value : ∀ {p args i}, ps[p]? = some (value args i) → Produces args i ∧
    ∃ id, l.blocks[index ps p]? = some (.steps id (args.map .argument ++ [i]))
  function : ∀ {q params body}, ps[q]? = some (function params body) →
    ∃ id g, l.blocks[index ps q]? = some (.function id g) ∧ g.params = params
  /-- A function reads only what stands before it. -/
  early : ∀ {q params body}, ps[q]? = some (Segment.function params body) →
    ∀ j, l.Reads (index ps q) j → j < functions ps + values (ps.take q)

theorem AllRegular.produces {ps : List Segment} (h : AllRegular ps) {p : Nat} {args : List ValueId}
    {i : Instruction} (hp : ps[p]? = some (value args i)) : Produces args i := by
  induction ps generalizing p with
  | nil => simp at hp
  | cons q ps ih =>
    rw [AllRegular] at h
    cases p with
    | zero =>
      cases hp
      have hv := h.1
      rwa [Regular] at hv
    | succ p => exact ih h.2 hp

/-- Every number of a function is that of a segment. -/
theorem exists_function {qs : List Segment} {f : Nat} (hf : f < functions qs) :
    ∃ q params body, qs[q]? = some (function params body) ∧ functions (qs.take q) = f := by
  induction qs generalizing f with
  | nil => simp [functions] at hf
  | cons s qs ih =>
    cases s with
    | value args i =>
      obtain ⟨q, params, body, hq, hn⟩ := ih hf
      exact ⟨q + 1, params, body, hq, hn⟩
    | function params body =>
      cases f with
      | zero => exact ⟨0, params, body, rfl, rfl⟩
      | succ f =>
        obtain ⟨q, params', body', hq, hn⟩ := ih (Nat.lt_of_succ_lt_succ hf)
        exact ⟨q + 1, params', body', hq, congrArg (· + 1) hn⟩

/-- Every number of a value is that of a segment. -/
theorem exists_value {qs : List Segment} {v : Nat} (hv : v < values qs) :
    ∃ p args i, qs[p]? = some (value args i) ∧ values (qs.take p) = v := by
  induction qs generalizing v with
  | nil => simp [values] at hv
  | cons s qs ih =>
    cases s with
    | function params body =>
      obtain ⟨p, args, i, hp, hn⟩ := ih hv
      exact ⟨p + 1, args, i, hp, hn⟩
    | value args i =>
      cases v with
      | zero => exact ⟨0, args, i, rfl, rfl⟩
      | succ v =>
        obtain ⟨p, args', i', hp, hn⟩ := ih (Nat.lt_of_succ_lt_succ hv)
        exact ⟨p + 1, args', i', hp, congrArg (· + 1) hn⟩

/-- The block of a value among segments. -/
theorem getElem?_stepsOf {ps : List Segment} {p : Nat} {args : List ValueId} {i : Instruction}
    (h : ps[p]? = some (value args i)) (next : Nat) : (stepsOf next ps)[values (ps.take p)]? =
      some (.steps (.ofNat (next + values (ps.take p))) (args.map .argument ++ [i])) := by
  induction ps generalizing p next with
  | nil => simp at h
  | cons q ps ih =>
    cases p with
    | zero =>
      cases h
      rfl
    | succ p =>
      cases q with
      | value args' i' =>
        have := ih h (next + 1)
        rwa [Nat.add_assoc, Nat.add_comm 1] at this
      | function params body => exact ih h next

/-- The block of a function among segments. -/
theorem FunctionsOf.getElem? {ps : List Segment} {id next : Nat} {fs : List Block}
    (hfs : FunctionsOf id next ps fs) {q : Nat} {params : UInt32} {body : List Segment}
    (h : ps[q]? = some (function params body)) :
    ∃ id g, fs[functions (ps.take q)]? = some (.function id g) ∧ g.params = params := by
  induction ps generalizing q id next fs with
  | nil => simp at h
  | cons p ps ih =>
    cases p with
    | value args i =>
      rw [FunctionsOf] at hfs
      cases q with
      | zero => cases h
      | succ q => exact ih hfs h
    | function params' body' =>
      rw [FunctionsOf] at hfs
      obtain ⟨g, fs, rfl, hg, hfs⟩ := hfs
      cases q with
      | zero =>
        cases h
        rw [GraphOf] at hg
        exact ⟨_, g, rfl, hg.2.1⟩
      | succ q => exact ih hfs h

end Segment

theorem Block.allLevels_append (bs cs : List Block) :
    allLevels (bs ++ cs) = allLevels bs ++ allLevels cs := by
  induction bs with
  | nil => rfl
  | cons b bs ih => rw [List.cons_append, allLevels, ih, allLevels, List.append_assoc]

theorem Graph.levels_eq (g : Graph) : g.levels = g :: Block.allLevels g.blocks := by
  obtain ⟨first, params, blocks, dependents⟩ := g
  rw [Graph.levels, Block.levels]

theorem Segment.allLevels_stepsOf (next : Nat) (ps : List Segment) :
    Block.allLevels (stepsOf next ps) = [] := by
  induction ps generalizing next with
  | nil => rfl
  | cons p ps ih =>
    cases p with
    | value args i =>
      rw [stepsOf, Block.allLevels, Block.levels]
      exact ih (next + 1)
    | function params body => exact ih next

namespace Draft

/-- What is read has a number below the next one. -/
theorem depend_below {d d₁ : Draft} {n next : Nat} (ha : d.At n next) (hn : next < 2 ^ 31)
    {id : ValueId} {dst position : Nat} (hd : d.depend id dst position = .ok d₁) :
    id.toInt < next := by
  have hnext := ha.next
  have hfirst : d.first.toInt = n := by rw [ha.first, toInt_ofNat (by omega)]
  have hbase : d.base.toInt = n + d.params.toNat := by
    rw [base_eq_ofNat ha.first, toInt_ofNat (by omega)]
    rfl
  unfold depend at hd
  cases ho : d.origin id position with
  | error e =>
    rw [ho] at hd
    cases hd
  | ok o =>
    rcases origin_eq_ok ho with ⟨-, hneg | ⟨-, hlt⟩⟩ | ⟨-, -, hlt⟩ | ⟨j, -, ⟨-, hle, hj⟩, hlt⟩
    · have hneg := Int32.lt_iff_toInt_lt.mp hneg
      have hz : (0 : Int32).toInt = 0 := rfl
      omega
    · have hlt := Int32.lt_iff_toInt_lt.mp hlt
      omega
    · have hlt := Int32.lt_iff_toInt_lt.mp hlt
      omega
    · have hle := Int32.le_iff_toInt_le.mp hle
      have hup := id.toInt_lt
      have hsub : (id - d.base).toInt = id.toInt - d.base.toInt := by
        rw [Int32.toInt_sub]
        exact Int.bmod_eq_of_le (by omega) (by omega)
      omega

theorem dependAll_below {d d₁ : Draft} {R : Nat → ValueId → Prop} (hr : d.Reflects R) {n next : Nat}
    (ha : d.At n next) (hn : next < 2 ^ 31) {ids : List ValueId} {dst position : Nat}
    (hdst : dst < d.functionCount ∨ dst = d.nextIndex)
    (hd : d.dependAll dst position ids = .ok d₁) : ∀ id ∈ ids, id.toInt < next := by
  induction ids generalizing d R with
  | nil => simp
  | cons id ids ih =>
    rw [dependAll] at hd
    cases h₁ : d.depend id dst position with
    | error e =>
      rw [h₁] at hd
      cases hd
    | ok d₂ =>
      rw [h₁] at hd
      obtain ⟨hr₂, hl⟩ := hr.depend hdst h₁
      have hids := ih hr₂ (ha.of_same hl) (by rwa [hl.functionCount, hl.nextIndex]) hd
      exact List.forall_mem_cons.mpr ⟨depend_below ha hn h₁, hids⟩

/-- An argument that waits for its call is no block yet. -/
theorem Sound.gains_withArgument {d d₁ : Draft} (hd : d.Sound) {id : ValueId} {position : Nat}
    (hdep : d.depend id d.nextIndex position = .ok d₁) : Gains d (d₁.withArgument id) [] [] := by
  obtain ⟨-, hl⟩ := hd.reflects.depend (.inr rfl) hdep
  exact ⟨hd.argument hdep, hl.first, hl.params, hl.functionCount,
    by simp [withArgument, hl.functions], by simp [withArgument, hl.values]⟩

theorem SameLevel.functions_addValue {d d₁ : Draft} (hl : SameLevel d d₁) (is : List Instruction) :
    (d₁.addValue is).functions = d.functions := hl.functions

/-- A value block is all that a level gains with it. -/
theorem SameLevel.gains_addValue {d d₁ : Draft} (hl : SameLevel d d₁) {n next : Nat}
    (ha : d.At n next) {is : List Instruction} (hv : (d₁.addValue is).Sound) :
    Gains d (d₁.addValue is) [] [.steps (.ofNat next) is] := by
  refine ⟨hv, hl.first, hl.params, hl.functionCount, ?_, ?_⟩
  · show d₁.functions.toList = _
    rw [hl.functions, List.append_nil]
  · show (d₁.values.push _).toList = _
    rw [Array.toList_push, hl.values, (ha.of_same hl).nextId]

/-- A function that has been added reads only values that were there before it. -/
theorem Gains.needs_lt {d d₁ : Draft} {b : Block} (hg : Gains d d₁ [b] []) :
    ∀ x ∈ b.needs, ∀ j, d.Makes x j → j < d.nextIndex := by
  intro x hx j hj
  have hb : d₁.functions[d.functions.size]? = some b := by
    rw [← Array.getElem?_toList, hg.functions, ← Array.length_toList,
      List.getElem?_append_right (Nat.le_refl _), Nat.sub_self]
    rfl
  have hn : d₁.nextIndex = d.nextIndex := hg.nextIndex
  obtain ⟨-, v, -, -, -, hv, -, hlt⟩ := hg.sound.function hb
  have := hlt x hx j (by rwa [Makes, base, hg.first, hg.params])
  omega

/-- A draft has taken the instructions of segments, whose functions have become the blocks `fs`.
The next function has the number `id` and the next value the number `next`. -/
structure Laid (id next : Nat) (d d' : Draft) (ps : List Segment) (fs : List Block) : Prop where
  regular : Segment.AllRegular ps
  gains : Gains d d' fs (Segment.stepsOf next ps)
  blocks : Segment.FunctionsOf id next ps fs
  inner : List.Forall₂ Segment.Lays (Segment.allInner ps) (Block.allLevels fs)
  early : ∀ {q params body}, ps[q]? = some (.function params body) →
    ∃ b, fs[Segment.functions (ps.take q)]? = some b ∧ ∀ id ∈ b.needs, ∀ j, d.Makes id j →
      j < d.nextIndex + Segment.values (ps.take q)
  reads : ∀ x ∈ Segment.allNumbered next ps, x.2 < 2 ^ 31 →
    ∀ id ∈ x.1.operand?, id.toInt < x.2

namespace Laid

variable {d d₁ d' : Draft} {id next : Nat} {ps : List Segment} {fs : List Block}

theorem refl (hd : d.Sound) (id next : Nat) : Laid id next d d [] [] := by
  refine ⟨trivial, .refl hd, ?_, ?_, fun hq => by simp at hq, ?_⟩
  · rw [Segment.FunctionsOf]
  · rw [Segment.allInner, Block.allLevels]
    exact .nil
  · simp [Segment.allNumbered]

/-- What a draft has noted of its reads does not matter. -/
theorem of_gains (h : Laid id next d₁ d' ps fs) (hg : Gains d d₁ [] []) : Laid id next d d' ps fs := by
  have hn : d₁.nextIndex = d.nextIndex := hg.nextIndex
  refine ⟨h.regular, hg.trans h.gains, h.blocks, h.inner, fun hq => ?_, h.reads⟩
  obtain ⟨b, hb, hlt⟩ := h.early hq
  refine ⟨b, hb, fun x hx j hj => ?_⟩
  rw [← hn]
  refine hlt x hx j ?_
  rwa [Makes, base, hg.first, hg.params]

/-- One more value in front. -/
theorem of_value (h : Laid id (next + 1) d₁ d' ps fs) {args : List ValueId} {i : Instruction}
    (hi : Segment.Produces args i)
    (hg : Gains d d₁ [] [.steps (.ofNat next) (args.map .argument ++ [i])])
    (hr : next < 2 ^ 31 → ∀ x ∈ args ++ i.operand?.toList, x.toInt < next) :
    Laid id next d d' (.value args i :: ps) fs := by
  have hn : d₁.nextIndex = d.nextIndex + 1 := hg.nextIndex
  refine ⟨?_, hg.trans h.gains, ?_, ?_, fun {q params body} hq => ?_, fun x hx hlt y hy => ?_⟩
  · rw [Segment.AllRegular, Segment.Regular]
    exact ⟨hi, h.regular⟩
  · rw [Segment.FunctionsOf]
    exact h.blocks
  · rw [Segment.allInner, Segment.inner]
    exact h.inner
  · cases q with
    | zero => cases hq
    | succ q =>
      obtain ⟨b, hb, hlt⟩ := h.early hq
      refine ⟨b, hb, fun x hx j hj => ?_⟩
      have hj := hlt x hx j (by rwa [Makes, base, hg.first, hg.params])
      rw [List.take_succ_cons, Segment.values]
      omega
  · rw [Segment.allNumbered, List.mem_append] at hx
    rcases hx with hx | hx
    · rw [Segment.numbered, List.mem_map] at hx
      obtain ⟨j, hj, rfl⟩ := hx
      refine hr hlt y ?_
      rw [List.mem_append, List.mem_map, List.mem_singleton] at hj
      rcases hj with ⟨a, ha, rfl⟩ | rfl
      · cases hy
        exact List.mem_append_left _ ha
      · exact List.mem_append_right _ (Option.mem_toList.mpr hy)
    · exact h.reads x hx hlt y hy

/-- One more function in front. -/
theorem of_function (h : Laid (id + 1) next d₁ d' ps fs) {g : Graph} {params : UInt32}
    {body : List Segment} (hg : Gains d d₁ [.function (.ofNat id) g] [])
    (hbody : Segment.AllRegular body) (hof : Segment.GraphOf next (.function params body) g)
    (hb : List.Forall₂ Segment.Lays (Segment.levels body) g.levels)
    (he : ∀ x ∈ (Block.function (.ofNat id) g).needs, ∀ j, d.Makes x j → j < d.nextIndex)
    (hr : ∀ x ∈ Segment.allNumbered (next + params.toNat + Segment.functions body) body,
      x.2 < 2 ^ 31 → ∀ id ∈ x.1.operand?, id.toInt < x.2) :
    Laid id next d d' (.function params body :: ps) (.function (.ofNat id) g :: fs) := by
  have hn : d₁.nextIndex = d.nextIndex := hg.nextIndex
  refine ⟨?_, hg.trans h.gains, ?_, ?_, fun {q params' body'} hq => ?_, fun x hx hlt y hy => ?_⟩
  · rw [Segment.AllRegular, Segment.Regular]
    exact ⟨hbody, h.regular⟩
  · rw [Segment.FunctionsOf]
    exact ⟨g, fs, rfl, hof, h.blocks⟩
  · rw [Segment.allInner, Segment.inner, Block.allLevels, Graph.levels_function]
    exact List.rel_append hb h.inner
  · cases q with
    | zero => exact ⟨_, rfl, he⟩
    | succ q =>
      obtain ⟨b', hb', hlt⟩ := h.early hq
      refine ⟨b', hb', fun x hx j hj => ?_⟩
      rw [← hn]
      exact hlt x hx j (by rwa [Makes, base, hg.first, hg.params])
  · rw [Segment.allNumbered, List.mem_append, Segment.numbered, List.mem_append, List.mem_cons,
      List.mem_singleton] at hx
    rcases hx with ((rfl | hx) | rfl) | hx
    · cases hy
    · exact hr x hx hlt y hy
    · cases hy
    · exact h.reads x hx hlt y hy

/-- A function body that has been taken as a whole. -/
theorem lays {first : ValueId} {params : UInt32} {position : Nat} {rest : List Instruction}
    {b : Draft} (h : Laid id next (start first params position rest) b ps fs)
    (hbc : b.functions.size = b.functionCount) :
    List.Forall₂ Segment.Lays (Segment.levels ps) b.finish.levels := by
  have hb := h.gains.sound
  have hfs := Segment.length_functionsOf h.blocks
  have hcount : b.functionCount = Segment.functions ps := by
    rw [← hbc, h.gains.size_functions, ← hfs]
    exact Nat.zero_add _
  have hblocks : b.finish.blocks = fs ++ Segment.stepsOf next ps := by
    rw [finish_blocks hb, Array.toList_append, h.gains.functions, h.gains.values]
    rfl
  rw [Segment.levels, Graph.levels_eq, hblocks, Block.allLevels_append, Segment.allLevels_stepsOf,
    List.append_nil]
  refine .cons ⟨?_, ?_, fun {p args i} hp => ?_, fun {q params' body} hq => ?_,
    fun {q params' body} hq j hj => ?_⟩ h.inner
  · rw [finish_functionCount hb hbc, hcount]
  · rw [hblocks, List.length_append, hfs, Segment.length_stepsOf]
  · refine ⟨h.regular.produces hp, .ofNat (next + Segment.values (ps.take p)), ?_⟩
    rw [hblocks, Segment.index_value hp, ← hfs, List.getElem?_append_right (Nat.le_add_right ..),
      Nat.add_sub_cancel_left]
    exact Segment.getElem?_stepsOf hp next
  · obtain ⟨x, g, hx, hg⟩ := h.blocks.getElem? hq
    refine ⟨x, g, ?_, hg⟩
    rw [hblocks, Segment.index_function hq, List.getElem?_append_left]
    · exact hx
    · exact (List.getElem?_eq_some_iff.mp hx).1
  · obtain ⟨b', hb', hlt⟩ := h.early hq
    obtain ⟨b'', hb'', x, hx, hm⟩ := hj
    rw [hblocks, Segment.index_function hq,
      List.getElem?_append_left (List.getElem?_eq_some_iff.mp hb').1, hb'] at hb''
    cases hb''
    have hj := hlt x hx j (by
      have hmade := (finish_makes hb x j).mp hm
      rwa [Makes, base, h.gains.first, h.gains.params] at hmade)
    rw [nextIndex, ← h.gains.functionCount, hcount] at hj
    exact hj

end Laid

/-- Taking instructions one by one takes them by segments. -/
theorem Takes.laid {d d' : Draft} {is : List Instruction} (h : Takes d is d')
    (rest : List Instruction) (hrest : countFunctions 0 rest = 0) (args : List ValueId)
    (hp : d.pending.toList = args.map .argument) (hd : d.Sound)
    (hc : d.functionCount = d.functions.size + countFunctions 0 (is ++ rest)) {n next : Nat}
    (ha : d.At n next) (hargs : next < 2 ^ 31 → ∀ a ∈ args, a.toInt < next)
    (hp' : d'.pending = #[]) : ∃ ps fs, args.map .argument ++ is = Segment.codes ps ∧
      Laid (n + d.params.toNat + d.functions.size) next d d' ps fs := by
  induction h generalizing rest args n next with
  | nil d =>
    have hnil : args = [] := by
      rw [hp'] at hp
      exact List.map_eq_nil_iff.mp hp.symm
    subst hnil
    exact ⟨[], [], rfl, .refl hd _ _⟩
  | @argument d d₁ d' id is position hdep _ ih =>
    obtain ⟨-, hl⟩ := hd.reflects.depend (.inr rfl) hdep
    have hg := hd.gains_withArgument hdep
    have hfunctions : (d₁.withArgument id).functions = d.functions := hl.functions
    obtain ⟨ps, fs, he, hlaid⟩ := ih rest hrest (args ++ [id])
      (by simp [withArgument, hl.pending, hp]) hg.sound
      (by rw [hg.functionCount, hfunctions]; exact hc) (hg.at_next ha)
      (fun hn a hmem => by
        rcases List.mem_append.mp hmem with hmem | hmem
        · exact hargs hn a hmem
        · exact List.mem_singleton.mp hmem ▸ depend_below ha hn hdep) hp'
    refine ⟨ps, fs, by simpa using he, Laid.of_gains ?_ hg⟩
    rwa [hg.params, hfunctions] at hlaid
  | @call d d₁ d' id is position hdep _ _ ih =>
    obtain ⟨hr, hl⟩ := hd.reflects.depend (.inr rfl) hdep
    have his : (d₁.pending.push (.call id)).toList = args.map Instruction.argument ++ [.call id] := by
      rw [Array.toList_push, hl.pending, hp]
    rw [his] at ih
    have hv : (d₁.addValue (args.map .argument ++ [.call id])).Sound := hd.addValue hl hr (by
      rw [← his, hl.pending]
      simp [Instruction.operand?])
    have hg := hl.gains_addValue ha hv
    obtain ⟨ps, fs, he, hlaid⟩ := ih rest hrest [] rfl hv
      (by rw [hg.functionCount, hl.functions_addValue]; exact hc) (hg.at_next ha) (by simp) hp'
    rw [hg.params, hl.functions_addValue] at hlaid
    refine ⟨.value args (.call id) :: ps, fs, ?_, hlaid.of_value trivial hg fun hn x hx => ?_⟩
    · rw [Segment.codes, Segment.code, ← he]
      simp
    · rcases List.mem_append.mp hx with hx | hx
      · exact hargs hn x hx
      · exact List.mem_singleton.mp hx ▸ depend_below ha hn hdep
  | @value d d₁ d' i is position hi hnone hdep _ _ ih =>
    have hnil : args = [] := by
      rw [hnone] at hp
      exact List.map_eq_nil_iff.mp hp.symm
    subst hnil
    obtain ⟨hr, hl⟩ := hd.reflects.dependAll (.inr rfl) hdep
    have hv : (d₁.addValue [i]).Sound := hd.addValue hl hr (by
      simp only [hnone, Array.toList_empty, List.filterMap_cons, List.filterMap_nil,
        List.nil_append]
      cases i.operand? <;> rfl)
    have hg := hl.gains_addValue ha hv
    have hcount : countFunctions 0 (i :: is ++ rest) = countFunctions 0 (is ++ rest) := by
      rcases hi with ⟨c, rfl⟩ | ⟨v, m, f, rfl⟩ | ⟨v, rfl⟩ <;> rfl
    obtain ⟨ps, fs, he, hlaid⟩ := ih rest hrest [] rfl hv
      (by rw [hg.functionCount, hl.functions_addValue, hc, hcount]) (hg.at_next ha) (by simp) hp'
    rw [hg.params, hl.functions_addValue] at hlaid
    have hproduces : Segment.Produces [] i := by
      rcases hi with ⟨c, rfl⟩ | ⟨v, m, f, rfl⟩ | ⟨v, rfl⟩ <;> rfl
    refine ⟨.value [] i :: ps, fs, ?_, hlaid.of_value hproduces hg fun hn x hx => ?_⟩
    · rw [Segment.codes, Segment.code, ← he]
      simp
    · exact dependAll_below hd.reflects ha hn (.inr rfl) hdep x hx
  | @function d d₁ d' b params body is position tail hnone _ hb hbp hadd _ ihb ih =>
    have hnil : args = [] := by
      rw [hnone] at hp
      exact List.map_eq_nil_iff.mp hp.symm
    subst hnil
    have hcount : countFunctions 0 (.enter params :: body ++ .leave :: is ++ rest)
        = 1 + countFunctions 0 (is ++ rest) := by
      have hskip := hb.countFunctions_succ 0 (.leave :: is ++ rest)
      simp only [List.append_assoc, List.cons_append, countFunctions] at hskip ⊢
      rw [hskip]
      simp
    rw [hcount] at hc
    have hstart : countFunctions 0 (body ++ .leave :: tail) =
        0 + countFunctions 0 (body ++ .leave :: tail) := (Nat.zero_add _).symm
    rw [ha.nextId] at hb ihb
    obtain ⟨hbs, hbc, hbf, -⟩ := hb.sound (.leave :: tail) rfl (sound_start ..) hstart
    obtain ⟨qs, gs, heq, hbody⟩ := ihb (.leave :: tail) rfl [] rfl (sound_start ..) hstart
      (at_start ..) (by simp) hbp
    have hqs : countFunctions 0 (body ++ .leave :: tail) = Segment.functions qs := by
      rw [← List.nil_append body]
      exact (congrArg (fun is => countFunctions 0 (is ++ .leave :: tail)) heq).trans
        (Segment.countFunctions_codes hbody.regular 0 (.leave :: tail))
    rw [hqs] at hbody
    -- the function itself
    have hlt : d.functions.size < d.functionCount := by omega
    obtain ⟨hp₁, hg⟩ := gains_addFunction hd hnone hlt hbs hbp hbc (hbf.trans ha.nextId.symm) hadd
    rw [base_eq_ofNat ha.first, ← Int32.ofNat_add] at hg
    have hneeds := hg.needs_lt
    -- what follows it
    have hsize := hg.size_functions
    obtain ⟨ps, fs, he, hlaid⟩ := ih rest hrest [] (by rw [hp₁]; rfl) hg.sound
      (by rw [hg.functionCount, hsize, List.length_singleton]; omega) (hg.at_next ha) (by simp) hp'
    rw [hg.params, hsize] at hlaid
    refine ⟨.function params qs :: ps, _, ?_,
      hlaid.of_function hg hbody.regular (graphOf_finish hbody.gains hbody.blocks)
        (hbody.lays hbc) hneeds hbody.reads⟩
    rw [Segment.codes, Segment.code, ← he, ← heq]
    simp

end Draft

/-- **The graph that is built from instructions comes from their segments**: its blocks are those of
the segments, and so at every level. -/
theorem Graph.lays_of_build {is : List Instruction} {g : Graph} (h : Graph.build is = .ok g) :
    Segment.codes (Segment.parse is) = is ∧ Segment.AllRegular (Segment.parse is) ∧
      Segment.GraphOf 0 (.function 0 (Segment.parse is)) g ∧
      List.Forall₂ Segment.Lays (Segment.levels (Segment.parse is)) g.levels ∧
      ∀ x ∈ Segment.allNumbered (Segment.functions (Segment.parse is)) (Segment.parse is),
        x.2 < 2 ^ 31 → ∀ id ∈ x.1.operand?, id.toInt < x.2 := by
  obtain ⟨d', ht, hp, rfl⟩ := Draft.taken_of_buildFrom is 0 _ [] h
  have hc : countFunctions 0 is = 0 + countFunctions 0 (is ++ []) := by
    rw [Nat.zero_add, List.append_nil]
  obtain ⟨-, hcount, -⟩ := ht.sound [] rfl (Draft.sound_start ..) hc
  obtain ⟨ps, fs, he, hlaid⟩ := ht.laid [] rfl [] rfl (Draft.sound_start ..) hc
    (Draft.at_start 0 0 0 is) (by simp) hp
  rw [List.map_nil, List.nil_append] at he
  subst he
  have hfunctions : countFunctions 0 (Segment.codes ps) = Segment.functions ps := by
    have := Segment.countFunctions_codes hlaid.regular 0 []
    simpa [countFunctions] using this
  rw [hfunctions] at hlaid
  rw [Segment.parse_codes hlaid.regular]
  refine ⟨rfl, hlaid.regular, Draft.graphOf_finish hlaid.gains hlaid.blocks, hlaid.lays hcount, ?_⟩
  have hreads := hlaid.reads
  rwa [show 0 + (0 : UInt32).toNat + Segment.functions ps = Segment.functions ps from
    Nat.zero_add _] at hreads

/-- Every level of a graph comes from the segments of one function body. -/
theorem Graph.exists_lays {is : List Instruction} {g l : Graph} (h : Graph.build is = .ok g)
    {m : Nat} (hm : g.levels[m]? = some l) :
    ∃ qs, (Segment.levels (Segment.parse is))[m]? = some qs ∧ Segment.Lays qs l := by
  obtain ⟨-, -, -, hlays, -⟩ := lays_of_build h
  obtain ⟨hlength, hget⟩ := List.forall₂_iff_get.mp hlays
  obtain ⟨hlt, rfl⟩ := List.getElem?_eq_some_iff.mp hm
  exact ⟨_, List.getElem?_eq_getElem (hlength ▸ hlt), hget m (hlength ▸ hlt) hlt⟩

end Dataflow
