import Dataflow.Proofs.Direct.Render
import Dataflow.Proofs.Graph.Levels
import Dataflow.Proofs.Graph.ProgramOrder
import Dataflow.Proofs.Run.Served

/-!
# Scopes that declare functions before they use them

The values and functions of a scope are listed in the order of the text. Where no value reads a
function before it and all functions behind it have been declared, the values of the scope's level run
in this order.

* `Given.split_value`, `Given.split_function`: what stands before a value or a function;
* `Graph.Roomy`, `Node.compile_roomy`: the numbers of all levels, and those behind them, are natural
  numbers;
* `Numbering.DeclaredFirst`: functions are declared before they are used, in all scopes;
* `Numbering.Covers`, `Numbering.Laid`: a level whose blocks are the functions and then the values of
  a scope, and one where functions are declared first;
* `Numbering.Laid.inProgramOrder`, `Numbering.Laid.mem_order`: the order in which the blocks of such a
  level run, and that all of them do.
-/

namespace Dataflow

namespace Given

variable {gs : List Given}

/-- What stands before and behind a value. -/
theorem split_value {p : Nat} {id : ValueId} {is : List Instruction}
    (h : (values gs)[p]? = some (id, is)) :
    ∃ before after, gs = before ++ .value id is :: after ∧ (values before).length = p := by
  induction gs generalizing p with
  | nil => cases h
  | cons g gs ih =>
    cases g with
    | value id' is' =>
      cases p with
      | zero =>
        cases h
        exact ⟨[], gs, rfl, rfl⟩
      | succ p =>
        obtain ⟨before, after, rfl, hp⟩ := ih h
        exact ⟨.value id' is' :: before, after, rfl, congrArg (· + 1) hp⟩
    | function id' scope =>
      obtain ⟨before, after, rfl, hp⟩ := ih h
      exact ⟨.function id' scope :: before, after, rfl, hp⟩

/-- What stands before and behind a function. -/
theorem split_function {p : Nat} {id : ValueId} {scope : Numbering}
    (h : (functions gs)[p]? = some (id, scope)) :
    ∃ before after, gs = before ++ .function id scope :: after ∧ (functions before).length = p := by
  induction gs generalizing p with
  | nil => cases h
  | cons g gs ih =>
    cases g with
    | value id' is =>
      obtain ⟨before, after, rfl, hp⟩ := ih h
      exact ⟨.value id' is :: before, after, rfl, hp⟩
    | function id' scope' =>
      cases p with
      | zero =>
        cases h
        exact ⟨[], gs, rfl, rfl⟩
      | succ p =>
        obtain ⟨before, after, rfl, hp⟩ := ih h
        exact ⟨.function id' scope' :: before, after, rfl, congrArg (· + 1) hp⟩

theorem getElem?_functions (before after : List Given) (id : ValueId) (scope : Numbering) :
    (functions (before ++ .function id scope :: after))[(functions before).length]? =
      some (id, scope) := by
  rw [functions_append, functions, List.getElem?_append_right (Nat.le_refl _), Nat.sub_self]
  rfl

theorem getElem?_values (before after : List Given) (id : ValueId) (is : List Instruction) :
    (values (before ++ .value id is :: after))[(values before).length]? = some (id, is) := by
  rw [values_append, values, List.getElem?_append_right (Nat.le_refl _), Nat.sub_self]
  rfl

/-- Of two beginnings, the one with fewer functions has no more values. -/
theorem values_le_of_functions_lt {before before' after after' : List Given}
    (h : before ++ after = before' ++ after')
    (hlt : (functions before').length < (functions before).length) :
    (values before').length ≤ (values before).length := by
  rcases List.append_eq_append_iff.mp h with ⟨between, rfl, -⟩ | ⟨between, rfl, -⟩
  · rw [functions_append, List.length_append] at hlt
    omega
  · rw [values_append, List.length_append]
    omega

end Given

/-- The numbers of all levels are natural numbers, and so is the one behind the last of them. -/
def Graph.Roomy (g : Graph) : Prop :=
  ∀ l ∈ g.levels, 0 ≤ l.first.toInt ∧ l.first.toInt + l.slotCount < 2 ^ 31

namespace Graph.Roomy

variable {g : Graph} (h : g.Roomy)
include h

theorem allFit : g.AllFit := fun l hl => Int.le_of_lt (h l hl).2

theorem body {body : Graph} {j : Nat} {id : ValueId}
    (hb : g.blocks[j]? = some (.function id body)) : body.Roomy :=
  fun l hl => h l (mem_levels_of_body hb hl)

theorem toInt_slot {n : Nat} (hn : n ≤ g.slotCount) : (g.slot n).toInt = g.first.toInt + n := by
  have := h g g.self_mem_levels
  exact toInt_add_ofNat (by omega)

end Graph.Roomy

namespace Segment

mutual

/-- The numbers of a sound function are in range, and so are those of the functions in it. -/
theorem roomy_of_graphOf {next : Nat} (p : Segment) (h : p.Sound next) {g : Graph}
    (hg : GraphOf next p g) : g.Roomy := by
  cases p with
  | value args i =>
    rw [GraphOf] at hg
    exact hg.elim
  | function params body =>
    rw [Sound] at h
    rw [GraphOf] at hg
    obtain ⟨-, hfit, hbody⟩ := h
    obtain ⟨hfirst, hparams, fs, hfs, hblocks⟩ := hg
    have hlen : g.blocks.length = functions body + values body := by
      rw [hblocks, List.length_append, length_functionsOf hfs, length_stepsOf]
    have hown : 0 ≤ g.first.toInt ∧ g.first.toInt + g.slotCount < 2 ^ 31 := by
      rw [Level.slotCount, hfirst, hparams, hlen, Draft.toInt_ofNat (by omega)]
      omega
    intro l hl
    obtain ⟨first, params', blocks, dependents⟩ := g
    rw [Graph.levels, Block.levels] at hl
    rcases List.mem_cons.mp hl with rfl | hl
    · exact hown
    · obtain ⟨b, hb, hl⟩ := Graph.mem_allLevels.mp hl
      rw [show blocks = _ from hblocks] at hb
      rcases List.mem_append.mp hb with hb | hb
      · exact roomy_of_functionsOf body hbody hfs hb l hl
      · rw [levels_stepsOf hb] at hl
        cases hl

theorem roomy_of_functionsOf {next : Nat} (ps : List Segment) (h : AllSound next ps) {id : Nat}
    {fs : List Block} (hfs : FunctionsOf id next ps fs) {b : Block} (hb : b ∈ fs) :
    ∀ l ∈ b.levels, 0 ≤ l.first.toInt ∧ l.first.toInt + l.slotCount < 2 ^ 31 := by
  cases ps with
  | nil =>
    rw [FunctionsOf] at hfs
    rw [hfs] at hb
    cases hb
  | cons p ps =>
    rw [AllSound] at h
    cases p with
    | value args i =>
      rw [FunctionsOf] at hfs
      exact roomy_of_functionsOf ps h.2 hfs hb
    | function params body =>
      rw [FunctionsOf] at hfs
      obtain ⟨g, bs', rfl, hg, hfs⟩ := hfs
      rcases List.mem_cons.mp hb with rfl | hb
      · have hroomy := roomy_of_graphOf (.function params body) h.1 hg
        obtain ⟨first, params', blocks, dependents⟩ := g
        intro l hl
        rw [Block.levels] at hl
        refine hroomy l ?_
        rwa [Graph.levels, Block.levels]
      · exact roomy_of_functionsOf ps h.2 hfs hb

end

end Segment

/-- The numbers of a compiled program start from 0 and are in range. -/
theorem Node.compile_roomy {root : Node} {e : Environment} {code : Code}
    (hw : root.weight < 2 ^ 31) (hs : e.size ≤ 2 ^ 31) (hc : root.compile e.idOf? = .ok code)
    {g : Graph} (hg : Graph.build code.instructions = .ok g) : g.first = 0 ∧ g.Roomy := by
  have hb {name : String} {id : ValueId} (h : e.idOf? name = some id) :
      id < 0 ∧ (Image.mk code.constants.toArray e).Has id := Environment.get?_of_idOf? hs h
  obtain ⟨ps, hi, hne, hfit, hsound, -⟩ := compile_segments hb hw hc
  obtain ⟨g', hg', hgraph⟩ := Graph.build_codes hfit hsound
  obtain rfl : g = g' := Except.ok.inj (hg.symm.trans (hi ▸ hg'))
  have hroomy := Segment.roomy_of_graphOf (.function 0 ps) (by
    rw [Segment.Sound]
    exact ⟨hne, by simpa using hfit, by simpa using hsound⟩) hgraph
  rw [Segment.GraphOf] at hgraph
  exact ⟨hgraph.1, hroomy⟩

namespace Numbering

open Given

/-- Functions are declared before they are used: every function that a value reads, and every function
that can be reached from there, is declared before the value. So it is in the functions, too. -/
inductive DeclaredFirst : Numbering → Graph → Prop where
  | intro {n : Numbering} {g : Graph}
    (level : ∀ {before id is after}, n.given = before ++ .value id is :: after →
      ∀ {k}, k < g.functionCount → g.Reads (g.functionCount + (values before).length) k →
      ∀ {l}, g.Reaches k l → l < (functions before).length)
    (bodies : ∀ {i : Nat} {id scope body}, (functions n.given)[i]? = some (id, scope) →
      g.blocks[i]? = some (.function id body) → DeclaredFirst scope body) : DeclaredFirst n g

/-- The blocks of a level are the functions of a scope and then its values. -/
structure Covers (n : Numbering) (g : Graph) : Prop where
  agrees : n.Agrees g
  built : g.Built
  room : g.Roomy
  hoisted : n.hoisted = (functions n.given).map Prod.fst

/-- The number that is given out behind the first values of a scope. -/
def next (n : Numbering) (before : List Given) : ValueId :=
  n.first + .ofNat (n.params.length + n.hoisted.length + (values before).length)

namespace Covers

variable {n : Numbering} {g : Graph} {before after : List Given} {id : ValueId}
  {is : List Instruction} {scope : Numbering}

theorem fits (h : n.Covers g) : g.Fits := h.room.allFit.fits

theorem block_value (h : n.Covers g) (hn : n.given = before ++ .value id is :: after) :
    g.blocks[n.hoisted.length + (values before).length]? = some (.steps id is) := by
  obtain ⟨-, -, -, -, -, hvalues, -⟩ := h.agrees
  exact hvalues (by rw [hn, getElem?_values])

theorem block_function (h : n.Covers g) (hn : n.given = before ++ .function id scope :: after) :
    ∃ body, g.blocks[(functions before).length]? = some (.function id body) ∧ scope.Agrees body := by
  obtain ⟨-, -, -, -, -, -, hfunctions, hbodies, -⟩ := h.agrees
  have hi : (functions n.given)[(functions before).length]? = some (id, scope) := by
    rw [hn, getElem?_functions]
  obtain ⟨body, hb⟩ := hfunctions hi
  exact ⟨body, hb, hbodies hi hb⟩

theorem blocks_length (h : n.Covers g) :
    g.blocks.length = n.hoisted.length + (values n.given).length := by
  obtain ⟨-, -, -, -, hblocks, -⟩ := h.agrees
  have := congrArg List.length hblocks
  simpa using this

theorem functionCount_eq (h : n.Covers g) : g.functionCount = n.hoisted.length := by
  have hw := h.built.level
  have hlen := h.blocks_length
  have hcount : n.hoisted.length = (functions n.given).length := by rw [h.hoisted, List.length_map]
  refine Nat.le_antisymm (Nat.le_of_not_lt fun hlt => ?_) (Nat.le_of_not_lt fun hlt => ?_)
  · -- the block behind the functions is a value
    have hle := g.functionCount_le
    obtain ⟨x, hx⟩ : ∃ x, (values n.given)[0]? = some x :=
      ⟨_, List.getElem?_eq_getElem (by omega)⟩
    obtain ⟨before, after, hn, hp⟩ := split_value hx
    have hb := h.block_value hn
    rw [hp, Nat.add_zero] at hb
    cases (hw.isFunction_iff hb).mpr hlt
  · obtain ⟨x, hx⟩ : ∃ x, (functions n.given)[g.functionCount]? = some x :=
      ⟨_, List.getElem?_eq_getElem (by omega)⟩
    obtain ⟨before, after, hn, hp⟩ := split_function hx
    obtain ⟨body, hb, -⟩ := h.block_function hn
    rw [hp] at hb
    exact Nat.lt_irrefl _ ((hw.isFunction_iff hb).mp rfl)

theorem functionCount_eq_functions (h : n.Covers g) :
    g.functionCount = (functions n.given).length := by
  rw [h.functionCount_eq, h.hoisted, List.length_map]

theorem steps (h : n.Covers g) (hn : n.given = before ++ .value id is :: after) :
    g.blocks[g.functionCount + (values before).length]? = some (.steps id is) := by
  rw [h.functionCount_eq]
  exact h.block_value hn

theorem params (h : n.Covers g) : g.params.toNat = n.params.length := by
  obtain ⟨-, hparams, -⟩ := h.agrees
  exact hparams

theorem first (h : n.Covers g) : g.first = n.first := by
  obtain ⟨hfirst, -⟩ := h.agrees
  exact hfirst

theorem nonempty (h : n.Covers g) : g.blocks ≠ [] := by
  obtain ⟨-, -, -, -, -, -, -, -, -, hresult⟩ := h.agrees
  rintro hnil
  rw [Graph.result?, hnil] at hresult
  cases hresult

/-- The first number of a function body. -/
theorem body_first (h : n.Covers g) (hn : n.given = before ++ .function id scope :: after)
    {body : Graph} (hb : scope.Agrees body) :
    body.first = g.slot (n.params.length + n.hoisted.length + (values before).length) := by
  obtain ⟨-, -, -, -, -, -, -, -, hentered, -⟩ := h.agrees
  obtain ⟨hfirst, -⟩ := hb
  rw [hfirst, hentered hn, Graph.slot, h.first]

/-- A function reads no value that stands behind it. -/
theorem reads_lt (h : n.Covers g) (hn : n.given = before ++ .function id scope :: after) {v : Nat}
    (hv : g.Reads (functions before).length v) : v < g.functionCount + (values before).length := by
  obtain ⟨body, hb, ha⟩ := h.block_function hn
  obtain ⟨w, hcw, hwl, hfirst, hlow⟩ := h.built.level.body_first hb
  have hfits := h.fits
  have hgiven : (functions before).length < g.functionCount :=
    (h.built.level.isFunction_iff hb).mp rfl
  -- both numbers are the first one of the function body
  have hslot : g.slot (g.params.toNat + w) =
      g.slot (g.params.toNat + (g.functionCount + (values before).length)) := by
    rw [← Graph.base_add, ← hfirst, h.body_first hn ha, h.functionCount_eq, h.params, Nat.add_assoc]
  have hcount : (values before).length ≤ (values n.given).length := by
    rw [hn, values_append, List.length_append]
    omega
  have hlen := h.blocks_length
  have hfc := h.functionCount_eq
  unfold Graph.Fits Level.slotCount at hfits
  have hlo := g.first.le_toInt
  have heq := congrArg (fun i : Int32 => i.toBitVec.toNat)
    ((Int32.add_right_inj _).mp (hslot : g.first + _ = g.first + _))
  simp only [Int32.toBitVec_ofNat', BitVec.toNat_ofNat] at heq
  have := hlow v hv
  omega

theorem next_eq (h : n.Covers g) (before : List Given) :
    n.next before = g.slot (g.params.toNat + (g.functionCount + (values before).length)) := by
  rw [next, ← h.first, h.params, h.functionCount_eq, ← Nat.add_assoc]
  rfl

theorem values_le (h : n.Covers g) (hn : n.given = before ++ after) :
    g.functionCount + (values before).length ≤ g.blocks.length := by
  have hlen := h.blocks_length
  rw [hn, values_append, List.length_append, ← h.functionCount_eq] at hlen
  omega

theorem toInt_next (h : n.Covers g) (hn : n.given = before ++ after) :
    (n.next before).toInt =
      g.first.toInt + (g.params.toNat + (g.functionCount + (values before).length) : Nat) := by
  have hle := h.values_le hn
  rw [h.next_eq, h.room.toInt_slot (by unfold Level.slotCount; omega)]

theorem next_mono (h : n.Covers g) {gs : List Given}
    (hn : n.given = before ++ gs ++ after) : n.next before ≤ n.next (before ++ gs) := by
  rw [Int32.le_iff_toInt_le, h.toInt_next hn, h.toInt_next ((List.append_assoc ..) ▸ hn),
    values_append, List.length_append]
  omega

/-- The number of a value is the next one. -/
theorem value_eq_next (h : n.Covers g) (hn : n.given = before ++ .value id is :: after) :
    id = n.next before := by
  have hid : id = _ := h.built.level.id_eq (h.steps hn)
  rw [hid, Graph.base_add, h.next_eq]

theorem value_nonneg (h : n.Covers g) (hn : n.given = before ++ .value id is :: after) :
    0 ≤ id := by
  have h0 := (h.room _ g.self_mem_levels).1
  rw [h.value_eq_next hn, Int32.le_iff_toInt_le, h.toInt_next hn]
  exact Int.add_nonneg h0 (Int.natCast_nonneg _)

/-- The number of a value is one of its scope. -/
theorem first_le_value (h : n.Covers g) (hn : n.given = before ++ .value id is :: after) :
    g.first ≤ id := by
  rw [h.value_eq_next hn, Int32.le_iff_toInt_le, h.toInt_next hn]
  omega

theorem value_lt_next (h : n.Covers g) (hn : n.given = before ++ .value id is :: after) :
    id < n.next (before ++ [.value id is]) := by
  have hn' : n.given = (before ++ [.value id is]) ++ after := by simpa using hn
  have hid := h.toInt_next hn
  have hnext := h.toInt_next hn'
  rw [← h.value_eq_next hn] at hid
  rw [values_append, List.length_append] at hnext
  rw [Int32.lt_iff_toInt_lt, hnext, hid, show (values [.value id is]).length = 1 from rfl]
  omega

/-- The parameters, functions and values of a scope have the numbers of its level in order. -/
theorem getElem?_numbers (h : n.Covers g) {k : Nat} {x : ValueId}
    (hx : (n.params ++ n.hoisted ++ (values n.given).map Prod.fst)[k]? = some x) :
    k < g.slotCount ∧ x = g.slot k := by
  have hparams := h.params
  have hblocks := h.blocks_length
  obtain ⟨-, -, hrun, -⟩ := h.agrees
  rw [hrun, Given.run, List.getElem?_map, Option.map_eq_some_iff] at hx
  obtain ⟨i, hi, rfl⟩ := hx
  obtain ⟨hk, rfl⟩ := List.getElem?_eq_some_iff.mp hi
  rw [List.length_range] at hk
  refine ⟨?_, by rw [List.getElem_range, ← h.first]; rfl⟩
  unfold Level.slotCount
  omega

theorem params_getElem (h : n.Covers g) {k : Nat} (hk : k < n.params.length) :
    n.params[k] = g.slot k := by
  refine (h.getElem?_numbers ?_).2
  rw [List.append_assoc, List.getElem?_append_left hk, List.getElem?_eq_getElem hk]

theorem hoisted_getElem (h : n.Covers g) {k : Nat} (hk : k < n.hoisted.length) :
    n.hoisted[k] = g.slot (g.params.toNat + k) := by
  refine (h.getElem?_numbers ?_).2
  rw [h.params, List.append_assoc, List.getElem?_append_right (Nat.le_add_right _ _),
    Nat.add_sub_cancel_left, List.getElem?_append_left hk, List.getElem?_eq_getElem hk]

theorem slot_of_mem (h : n.Covers g) {id : ValueId}
    (hid : id ∈ n.params ++ n.hoisted ++ (values n.given).map Prod.fst) :
    ∃ k < g.slotCount, id = g.slot k := by
  obtain ⟨k, hk⟩ := List.mem_iff_getElem?.mp hid
  obtain ⟨hlt, he⟩ := h.getElem?_numbers hk
  exact ⟨k, hlt, he⟩

/-- A function whose numbers were given out in the scope of a level. -/
theorem body (h : n.Covers g) (hn : n.given = before ++ .function id scope :: after)
    (hh : scope.hoisted = (functions scope.given).map Prod.fst) :
    ∃ body, g.blocks[(functions before).length]? = some (.function id body) ∧ scope.Covers body := by
  obtain ⟨body, hb, ha⟩ := h.block_function hn
  exact ⟨body, hb, ha, h.built.body hb, h.room.body hb, hh⟩

/-- Every block of a level is a value or a function of its scope. -/
theorem block_cases (h : n.Covers g) {i : Nat} {b : Block} (hb : g.blocks[i]? = some b) :
    (∃ before id is after, n.given = before ++ .value id is :: after ∧ b = .steps id is ∧
      i = g.functionCount + (values before).length) ∨
    ∃ before id, ∃ scope : Numbering, ∃ after body, n.given = before ++ .function id scope :: after ∧
      b = .function id body ∧ scope.Agrees body ∧ i = (functions before).length := by
  have hlt := (List.getElem?_eq_some_iff.mp hb).1
  have hlen := h.blocks_length
  have hfc := h.functionCount_eq
  by_cases hi : i < g.functionCount
  · obtain ⟨⟨id, scope⟩, hx⟩ : ∃ x, (functions n.given)[i]? = some x :=
      ⟨_, List.getElem?_eq_getElem (by rwa [← h.functionCount_eq_functions])⟩
    obtain ⟨before, after, hn, rfl⟩ := split_function hx
    obtain ⟨body, hb', ha⟩ := h.block_function hn
    exact .inr ⟨before, id, scope, after, body, hn, Option.some.inj (hb.symm.trans hb'), ha, rfl⟩
  · obtain ⟨⟨id, is⟩, hx⟩ : ∃ x, (values n.given)[i - g.functionCount]? = some x :=
      ⟨_, List.getElem?_eq_getElem (by omega)⟩
    obtain ⟨before, after, hn, hp⟩ := split_value hx
    obtain rfl : i = g.functionCount + (values before).length := by omega
    exact .inl ⟨before, id, is, after, hn, Option.some.inj (hb.symm.trans (h.steps hn)), rfl⟩

end Covers

/-- A level that covers a scope in which functions are declared before they are used. -/
structure Laid (n : Numbering) (g : Graph) : Prop extends n.Covers g where
  ordered : n.DeclaredFirst g

namespace Laid

variable {n : Numbering} {g : Graph} {before after : List Given} {id : ValueId} {scope : Numbering}

/-- The values of a level run in the order of the text, and each function before the values that read
it. -/
theorem inProgramOrder (h : n.Laid g) : g.InProgramOrder := by
  have hw := h.built.level
  refine Graph.inProgramOrder_of_upward hw fun {v j i} hj hi hvj hji => ?_
  -- the value reads a function that leads to one that reads the other value
  obtain ⟨f, hjf, hread⟩ : ∃ f, g.Reaches j f ∧ g.Reads f v := by
    rcases (hw.waiting_iff.mp hvj).2 with ⟨hlow, -⟩ | ⟨hlow, -⟩ | ⟨-, -, hf⟩
    · omega
    · omega
    · exact hf
  obtain ⟨k, hk, hik, hkj⟩ : ∃ k < g.functionCount, g.Reads i k ∧ g.Reaches k j := by
    rcases (hw.waiting_iff.mp hji).2 with ⟨-, hr⟩ | ⟨-, -, hf⟩ | ⟨hlow, -⟩
    · exact ⟨j, hj, hr, .refl⟩
    · exact hf
    · omega
  have hlt : i < g.blocks.length := by
    obtain ⟨b, hb, -⟩ := hik
    exact (List.getElem?_eq_some_iff.mp hb).1
  have hlen := h.blocks_length
  have hfc := h.functionCount_eq
  obtain ⟨⟨id, is⟩, hx⟩ : ∃ x, (values n.given)[i - g.functionCount]? = some x :=
    ⟨_, List.getElem?_eq_getElem (by omega)⟩
  obtain ⟨before, after, hn, hp⟩ := split_value hx
  obtain ⟨hlevel, -⟩ := h.ordered
  have hf : f < (functions before).length := by
    refine hlevel hn hk ?_ (hkj.trans hjf)
    rwa [hp, Nat.add_sub_cancel' hi]
  obtain ⟨⟨id', scope⟩, hy⟩ : ∃ y, (functions n.given)[f]? = some y :=
    ⟨_, List.getElem?_eq_getElem (by rw [← h.functionCount_eq_functions]; exact hjf.isFunction hj)⟩
  obtain ⟨before', after', hn', hq⟩ := split_function hy
  have hv := h.reads_lt hn' (hq.symm ▸ hread)
  have hle := values_le_of_functions_lt (hn.symm.trans hn') (by omega)
  omega

/-- All blocks of a level are visited. -/
theorem mem_order (h : n.Laid g) {i : Nat} (hi : i < g.blocks.length) :
    i ∈ Peel.order g.blocks.length g.dependents := by
  refine (Peel.forall_mem_order_iff fun j hj => ?_).mpr h.inProgramOrder.acyclic i hi
  by_contra hge
  exact hj (List.getD_eq_default _ _ (by rw [h.built.level.dependents_length]; omega))

theorem body (h : n.Laid g) (hn : n.given = before ++ .function id scope :: after)
    (hh : scope.hoisted = (functions scope.given).map Prod.fst) :
    ∃ body, g.blocks[(functions before).length]? = some (.function id body) ∧ scope.Laid body := by
  obtain ⟨body, hb, hbody⟩ := h.toCovers.body hn hh
  obtain ⟨-, hordered⟩ := h.ordered
  exact ⟨body, hb, hbody, hordered (by rw [hn, getElem?_functions]) hb⟩

end Laid

end Numbering

/-! ## Scopes of trees -/

section Trees

variable {builtin : String → Option ValueId} {holds : ConstantId → Constant → Prop}
  {T T' : Tables} {gs : List Given} {id : ValueId}

theorem Concludes.functions_eq_nil {last : Option ValueId} (h : Concludes builtin T last gs id T') :
    Given.functions gs = [] := by
  cases h <;> rfl

namespace Node

mutual

/-- Expressions declare no functions. -/
theorem Renders.functions_eq_nil {node : Node} {T T' : Tables} {gs : List Given} {id : ValueId}
    (h : node.Renders builtin holds T gs id T') : Given.functions gs = [] := by
  cases h with
  | known | literal | bound | builtin => rfl
  | assign h => exact h.functions_eq_nil
  | call hc ha =>
    rw [Given.functions_append, Given.functions_append, hc.functions_eq_nil, ha.functions_eq_nil]
    rfl
  | select h =>
    rw [Given.functions_append, h.functions_eq_nil]
    rfl
  | list h hc => rw [Given.functions_append, h.functions_eq_nil, hc.functions_eq_nil, List.append_nil]

theorem RendersAll.functions_eq_nil {nodes : List Node} {T T' : Tables} {gs : List Given}
    {ids : List ValueId} (h : RendersAll builtin holds nodes T gs ids T') :
    Given.functions gs = [] := by
  cases h with
  | nil => rfl
  | cons h hs => rw [Given.functions_append, h.functions_eq_nil, hs.functions_eq_nil, List.append_nil]

end

theorem functionNames_of_not_isFunction {item : Node} (h : item.isFunction = false)
    (items : List Node) : functionNames (item :: items) = functionNames items := by
  cases item with
  | function => cases h
  | _ => rfl

/-- The functions of a body have the numbers that were set aside for them. -/
theorem RendersBody.functions_eq {hoisted : List ValueId} {items : List Node}
    {last : Option ValueId} (h : RendersBody builtin holds hoisted items T gs last T')
    (hc : hoisted.length = (functionNames items).length) :
    (Given.functions gs).map Prod.fst = hoisted := by
  induction items generalizing hoisted T gs last with
  | nil =>
    cases h
    rw [functionNames, List.length_nil, List.length_eq_zero_iff] at hc
    rw [hc]
    rfl
  | cons item items ih =>
    cases h with
    | function hf h =>
      rw [functionNames, List.length_cons, List.length_cons, Nat.add_right_cancel_iff] at hc
      rw [Given.functions, List.map_cons, ih h hc]
    | value hi h hs =>
      rw [functionNames_of_not_isFunction hi] at hc
      rw [Given.functions_append, h.functions_eq_nil, List.nil_append, ih hs hc]

theorem RendersFunction.hoisted_eq {params : List String} {body : Node} {n : Numbering}
    (h : RendersFunction builtin holds params body T n) :
    n.hoisted = (Given.functions n.given).map Prod.fst := by
  cases h with
  | intro hids hh h hc =>
    rw [Given.functions_append, hc.functions_eq_nil, List.append_nil, h.functions_eq hh]

end Node

end Trees

end Dataflow
