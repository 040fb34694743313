import Dataflow.Proofs.Direct.Outcome

/-!
# Levels that run

While the statements of a body are evaluated, the machine visits the blocks of their level. The values
come in the order of the text. Functions are declared on both sides, but not at the same time: on the
machine just before the first value that needs them, or as soon as nothing is missing.

* `Stage`, `Stage.At`: where a level runs, and how far both sides have come;
* `Stage.At.readable`: whatever the next value reads can be read;
* `Stage.Visited`, `Stage.Visits`: an evaluation goes along with the visits of blocks;
* `Stage.At.visit_functions`, `Stage.At.declare`: functions, on the machine and in the evaluation;
* **`Stage.At.visit_value`**: the next value.
-/

namespace Dataflow

open Run

/-- Where a level runs: its numbers and its graph, the levels around it, its unit, and where its
statements are evaluated. -/
structure Stage where
  numbering : Numbering
  graph : Graph
  outer : List Graph
  unit : Nat
  image : Image
  scene : Scene

namespace Graph

variable {g : Graph} {i j : Nat} {b b' : Block}

/-- A block makes the value that has its number, if that is read. -/
theorem WellBuilt.makes_of_mem (hw : g.WellBuilt) (hf : g.Fits) (hb : g.blocks[j]? = some b)
    {id : ValueId} (hbi : b.id = id) (h0 : 0 ≤ id) (hfirst : g.first ≤ id)
    (hb' : g.blocks[i]? = some b') (hid : id ∈ b'.needs) : g.Makes id j := by
  have hj := (List.getElem?_eq_some_iff.mp hb).1
  have hslot : id = g.slot (g.params.toNat + j) := by rw [← hbi, hw.id_eq hb, base_add]
  have hcount : g.params.toNat + j < g.slotCount := by unfold Level.slotCount; omega
  have hna : ¬ Ambient g.first g.base id := by
    rintro (hneg | ⟨-, hlt⟩)
    · exact Int32.not_lt.mpr h0 hneg
    · obtain ⟨n, hn, he⟩ := hf.param (List.ne_nil_of_mem (List.mem_of_getElem? hb)) hfirst hlt
      have := hf.slot_inj hcount (by unfold Level.slotCount; omega) (hslot.symm.trans he)
      omega
  obtain ⟨k, hk, hm, -⟩ := hw.made hb' hid hna hfirst
  have := hf.slot_inj hcount (by unfold Level.slotCount; omega) (hslot.symm.trans hm.eq)
  obtain rfl : j = k := by omega
  exact hm

end Graph

namespace Tandem

variable {t t' : Tandem} {h : SourceHost} {h' : Host}

/-- What a running level reads of a function further out has been declared with all that it can
reach, since the function that the level belongs to can reach it. -/
theorem Tied.introduced_outer (ht : t.Tied h h') {scope holder i j : Nat} {a : Activation}
    {g g' body : Graph} {outer outer' : List Graph} {b : Block} {id : ValueId}
    (ha : t.machine.activations[scope]? = some a) (hl : (t.sites scope).levels = g :: outer)
    (hb : g.blocks[i]? = some b) (hid : id ∈ b.needs) (h0 : 0 ≤ id) (hlt : id < g.first)
    (hh : t.machine.holder? id scope = some holder) (hl' : (t.sites holder).levels = g' :: outer')
    (hf : g'.blocks[j]? = some (.function id body)) : t.Introduced g' holder j := by
  induction scope using Nat.strongRecOn generalizing a g outer i b with
  | ind scope ih =>
    obtain ⟨g₁, outer₁, haf⟩ := ht.fine.activation ha
    obtain ⟨rfl, rfl⟩ := List.cons_eq_cons.mp (haf.levels.symm.trans hl)
    cases outer₁ with
    | nil =>
      rw [(haf.root rfl).2] at hlt
      exact absurd h0 (Int32.not_le.mpr hlt)
    | cons p outer₁ =>
      obtain ⟨s, -, -, hpar, hps, -⟩ := haf.parent rfl
      obtain ⟨g₂, g₃, outer₂, k, idk, hlev, hlevp, hbk, hi⟩ := ht.parent ha hpar
      obtain ⟨rfl, he⟩ := List.cons_eq_cons.mp (hlev.symm.trans hl)
      obtain ⟨rfl, rfl⟩ := List.cons_eq_cons.mp he
      rw [Machine.holder?_outer ha (haf.first ▸ hlt) hpar hps] at hh
      have hsa := Nat.lt_trans hps (Array.getElem?_eq_some_iff.mp ha).1
      have has := Array.getElem?_eq_getElem hsa
      obtain ⟨g₄, outer₄, haf'⟩ := ht.fine.activation has
      obtain ⟨rfl, rfl⟩ := List.cons_eq_cons.mp (haf'.levels.symm.trans hlevp)
      have hid' : id ∈ (Block.function idk g₂).needs :=
        Block.mem_needs_function.mpr ⟨h0, hlt, b, List.mem_of_getElem? hb, hid⟩
      by_cases hfirst : g₄.first ≤ id
      · -- the function that the level belongs to reads it there
        rw [Machine.holder?_here has (haf'.first ▸ hfirst)] at hh
        cases hh
        obtain ⟨rfl, rfl⟩ := List.cons_eq_cons.mp (hlevp.symm.trans hl')
        have hw := haf'.built.level
        have hm : g₄.Makes id j := hw.makes_of_mem haf'.fits hf rfl h0 hfirst hbk hid'
        have hlink : g₄.Links k j :=
          ⟨(hw.isFunction_iff hbk).mp rfl, (hw.isFunction_iff hf).mp rfl, _, hbk, id, hid', hm⟩
        exact fun l hl => hi l (.head hlink hl)
      · exact ih s hps has hlevp hbk hid' (Int32.not_le.mp hfirst) hh

/-- Something is written in an activation. -/
theorem Tied.store (ht : t.Tied h h') {scope i : Nat} {a : Activation} {g : Graph}
    {outer : List Graph} {b : Block} {s : Slot} (ha : t.machine.activations[scope]? = some a)
    (haf : a.Fine t.sites t.machine scope g outer) (hb : g.blocks[i]? = some b)
    (hn : a.slot? (g.slot (g.params.toNat + i)) = none)
    (hw : b.MayWrite t.sites t.machine scope g i s) :
    Le scope t { t with machine := t.machine.store scope (g.params.toNat + i) s } ∧
      Tied { t with machine := t.machine.store scope (g.params.toNat + i) s } h h' := by
  have ho := haf.offset?_block hb
  have hle : Le scope t { t with machine := t.machine.store scope (g.params.toNat + i) s } := by
    refine ⟨.store ha ho hn s, id, id, Nat.le_refl _, id, fun k hk => ?_, fun _ _ => rfl⟩
    rw [Machine.activations_store, if_neg (by omega)]
  refine ⟨hle, ht.fine.store ha haf hb hn hw, ?_, ht.pairs_lt, ht.copies_lt, ht.printed, ht.loads,
    fun hd => ?_, fun {scope' a' p} ha' hp => ?_, hle.serves ht.serves⟩
  · rw [ht.size]
    exact (Array.size_modify ..).symm
  · obtain ⟨g', outer', id, body, n, T, hl, hb', hp⟩ := ht.declared hd
    refine ⟨g', outer', id, body, n, T, hl, hb', hle.prepared ht.fine hp fun p hp => ?_⟩
    cases hp
    obtain ⟨ds, hds, -⟩ := Option.bind_eq_some_iff.mp hd
    rw [← ht.size]
    exact (Array.getElem?_eq_some_iff.mp hds).1
  · have hshape : ∃ a₁, t.machine.activations[scope']? = some a₁ ∧ a₁.parent = some p := by
      rw [Machine.activations_store] at ha'
      split at ha'
      case isTrue he =>
        obtain ⟨a₁, ha₁, rfl⟩ := Option.map_eq_some_iff.mp ha'
        exact ⟨a₁, ha₁, (Activation.shape_eq (Activation.shape_put ..)).1.symm.trans hp⟩
      case isFalse => exact ⟨a', ha', hp⟩
    obtain ⟨a₁, ha₁, hp₁⟩ := hshape
    obtain ⟨g₁, g', outer', j, id, hl, hl', hb', hi⟩ := ht.parent ha₁ hp₁
    exact ⟨g₁, g', outer', j, id, hl, hl', hb', hle.introduced hi⟩

/-- A function is declared in the evaluation. -/
theorem Tied.declare (ht : t.Tied h h') {scope : Nat} {ds : Array Declaration} {d : Declaration}
    {g body : Graph} {outer : List Graph} {id : ValueId} {n : Numbering} {T : Tables}
    (hds : t.world.activations[scope]? = some ds) (hl : (t.sites scope).levels = g :: outer)
    (hb : g.blocks[ds.size]? = some (.function id body))
    (hd : t.Prepared d body (t.sites scope).unit (some scope) n T) :
    ∃ w, Evaluation.declare scope d t.world = ([], .ok () w) ∧ Le scope t { t with world := w } ∧
      Tied { t with world := w } h h' ∧ w.activations[scope]? = some (ds.push d) := by
  have hlt := (Array.getElem?_eq_some_iff.mp hds).1
  have hact (i : Nat) : (t.world.activations.modify scope (·.push d))[i]? =
      if scope = i then t.world.activations[i]?.map (·.push d) else t.world.activations[i]? :=
    Array.getElem?_modify
  refine ⟨_, rfl, ?_⟩
  have hle : Le scope t { t with world :=
      { t.world with activations := t.world.activations.modify scope (·.push d) } } := by
    refine ⟨.refl _ _, fun hp => hp, fun hp => hp, Nat.le_refl _, fun {scope' j d'} hx => ?_,
      fun _ _ => rfl, fun i hi => ?_⟩
    · obtain ⟨ds', hds', hj⟩ := Option.bind_eq_some_iff.mp hx
      rw [World.declared?, hact]
      split
      · rw [hds', Option.map_some, Option.bind_some, Array.getElem?_push_lt
          (Array.getElem?_eq_some_iff.mp hj).1, (Array.getElem?_eq_some_iff.mp hj).2]
      · exact hx
    · rw [hact, if_neg (by omega)]
  have hnew : (t.world.activations.modify scope (·.push d))[scope]? = some (ds.push d) := by
    rw [hact, if_pos rfl, hds, Option.map_some]
  have lt {scope' j : Nat} {d' : Declaration} (hx : t.world.declared? scope' j = some d') :
      ∀ p, some scope' = some p → p < t.machine.activations.size := by
    rintro p ⟨⟩
    obtain ⟨ds', hds', -⟩ := Option.bind_eq_some_iff.mp hx
    rw [← ht.size]
    exact (Array.getElem?_eq_some_iff.mp hds').1
  refine ⟨hle, ⟨ht.fine, (Array.size_modify ..).trans ht.size, ht.pairs_lt, ht.copies_lt, ht.printed,
    ht.loads, fun {scope' j d'} hx => ?_, fun ha hp => ?_, hle.serves ht.serves⟩, hnew⟩
  · by_cases he : scope' = scope ∧ j = ds.size
    · obtain ⟨rfl, rfl⟩ := he
      rw [World.declared?, hnew, Option.bind_some, Array.getElem?_push_size] at hx
      cases hx
      refine ⟨g, outer, id, body, n, T, hl, hb, hle.prepared ht.fine hd ?_⟩
      rintro p ⟨⟩
      rw [← ht.size]
      exact hlt
    · have hold : t.world.declared? scope' j = some d' := by
        rw [World.declared?, hact] at hx
        split at hx
        case isTrue hs =>
          subst hs
          rw [hds, Option.map_some, Option.bind_some, Array.getElem?_push, if_neg (by tauto)] at hx
          rw [World.declared?, hds, Option.bind_some, hx]
        case isFalse => exact hx
      obtain ⟨g', outer', id', body', n', T', hl', hb', hp⟩ := ht.declared hold
      exact ⟨g', outer', id', body', n', T', hl', hb', hle.prepared ht.fine hp (lt hold)⟩
  · obtain ⟨g', g'', outer', j, id', hl', hl'', hb', hi⟩ := ht.parent ha hp
    exact ⟨g', g'', outer', j, id', hl', hl'', hb', hle.introduced hi⟩

theorem Readable.later {k scope : Nat} {id : ValueId} (hr : t.Readable scope id) (ht : t.Tied h h')
    (hs : scope < t.machine.activations.size) (hle : Le k t t') : t'.Readable scope id := by
  have hholder := hle.grows.holder? ht.fine.nested id hs
  refine ⟨fun h0 => ?_, fun {holder j g body outer} h0 hh hl hb => ?_⟩
  · obtain ⟨holder, s, hh, hl, hx, hf⟩ := hr.found h0
    refine ⟨holder, s, hholder.trans hh, ?_, hle.grows.slot? hx, hle.grows.slot hf⟩
    rw [hle.grows.sites hs, hle.grows.sites (Machine.holder?_lt hh), hl]
  · rw [hholder] at hh
    rw [hle.grows.sites (Machine.holder?_lt hh)] at hl
    exact hle.introduced (hr.introduced h0 hh hl hb)

end Tandem

/-! ## How far both sides have come -/

namespace Stage

open Tandem Given

variable {σ : Stage} {t t' : Tandem} {h : SourceHost} {h' : Host} {answer' : Request → Run Value}
  {before after : List Given} {rest : List Nat}

/-- Where the instructions of the level run. -/
def frame (σ : Stage) : Frame := ⟨σ.unit, σ.scene.scope, σ.scene.depth⟩

/-- Both sides have come so far in a level: what stands in the text before this point has been
evaluated, and the machine has not yet visited the other blocks, all of whose values stand behind
this point. -/
structure At (σ : Stage) (h : SourceHost) (h' : Host) (t : Tandem) (before : List Given)
    (rest : List Nat) : Prop where
  tied : t.Tied h h'
  laid : σ.numbering.Laid σ.graph
  lt : σ.scene.scope < t.machine.activations.size
  site : t.sites σ.scene.scope = ⟨σ.graph :: σ.outer, σ.unit⟩
  image : t.machine.image σ.unit = σ.image
  few : σ.scene.environment.size ≤ 2 ^ 31
  environment : σ.scene.environment.Related t.link σ.image.environment
  visited : ∃ done, Peel.order σ.graph.blocks.length σ.graph.dependents = done ++ rest ∧
    ∀ i < σ.graph.blocks.length,
      (t.machine.slot? σ.scene.scope (σ.graph.slot (σ.graph.params.toNat + i))).isSome = true ↔
        i ∈ done
  values : rest.filter (σ.graph.functionCount ≤ ·) =
    List.range' (σ.graph.functionCount + (values before).length)
      (σ.graph.blocks.length - (σ.graph.functionCount + (values before).length))
  declared : ∃ ds, t.world.activations[σ.scene.scope]? = some ds ∧
    ds.size = (functions before).length

namespace At

theorem activation (ha : σ.At h h' t before rest) : ∃ a,
    t.machine.activations[σ.scene.scope]? = some a ∧
      a.Fine t.sites t.machine σ.scene.scope σ.graph σ.outer := by
  obtain ⟨g, outer, haf⟩ := ha.tied.fine.activation (Array.getElem?_eq_getElem ha.lt)
  have hl := haf.levels
  rw [ha.site] at hl
  obtain ⟨rfl, rfl⟩ := List.cons_eq_cons.mp hl
  exact ⟨_, Array.getElem?_eq_getElem ha.lt, haf⟩

theorem isSome_declared (ha : σ.At h h' t before rest) {j : Nat}
    (hj : j < (functions before).length) : (t.world.declared? σ.scene.scope j).isSome = true := by
  obtain ⟨ds, hds, hsize⟩ := ha.declared
  rw [World.declared?, hds, Option.bind_some, Array.getElem?_eq_getElem (by omega)]
  rfl

/-- Both sides go on within other activations, and what has been written here stays what it is. -/
theorem later (ha : σ.At h h' t before rest) (hle : Le t.machine.activations.size t t')
    (ht : t'.Tied h h') : σ.At h h' t' before rest := by
  obtain ⟨done, horder, hwritten⟩ := ha.visited
  have hunit : σ.unit < t.machine.images.size := by
    have := ha.tied.fine.unit ha.lt
    rwa [ha.site] at this
  refine ⟨ht, ha.laid, Nat.lt_of_lt_of_le ha.lt hle.grows.size_le, ?_, ?_, ha.few, ?_,
    ⟨done, horder, fun i hi => ?_⟩, ha.values, ?_⟩
  · rw [hle.grows.sites ha.lt, ha.site]
  · rw [hle.image hunit, ha.image]
  · exact SymbolsRelated.mono hle.link ha.environment
  · rw [Machine.slot?, hle.machine _ ha.lt]
    exact hwritten i hi
  · rw [hle.world _ ha.lt]
    exact ha.declared

/-- What the machine visits next, and what has been written by then. -/
theorem written_of_waits {i : Nat} (ha : σ.At h h' t before (i :: rest)) {k : Nat}
    (hk : i ∈ σ.graph.waiting k) : (t.machine.slot? σ.scene.scope
      (σ.graph.slot (σ.graph.params.toNat + k))).isSome = true := by
  obtain ⟨done, horder, hwritten⟩ := ha.visited
  have hi := Peel.lt_of_mem_order (horder ▸ List.mem_append_right done List.mem_cons_self)
  have hkl : k < σ.graph.blocks.length := by
    by_contra hge
    rw [Level.waiting, List.getD_eq_default _ _
      (by rw [ha.laid.built.level.dependents_length]; omega)] at hk
    cases hk
  exact (hwritten k hkl).mpr (Peel.forward_order _ _ done i rest horder k ⟨hi, hk⟩)

theorem free {i : Nat} (ha : σ.At h h' t before (i :: rest)) : t.machine.slot? σ.scene.scope
    (σ.graph.slot (σ.graph.params.toNat + i)) = none := by
  obtain ⟨done, horder, hwritten⟩ := ha.visited
  have hi := Peel.lt_of_mem_order (horder ▸ List.mem_append_right done List.mem_cons_self)
  have hnodup := Peel.nodup_order σ.graph.blocks.length σ.graph.dependents
  rw [horder, List.nodup_append] at hnodup
  have hnot : i ∉ done := fun hd => hnodup.2.2 i hd i List.mem_cons_self rfl
  rw [← Option.not_isSome_iff_eq_none]
  exact fun hs => hnot ((hwritten i hi).mp hs)

/-- Whatever the next value reads can be read. -/
theorem readable {i : Nat} {id : ValueId} {is : List Instruction}
    (ha : σ.At h h' t before (i :: rest)) (hn : σ.numbering.given = before ++ .value id is :: after)
    (hi : i = σ.graph.functionCount + (Given.values before).length) {x : ValueId}
    (hx : x ∈ (Block.steps id is).needs) : t.Readable σ.scene.scope x := by
  obtain ⟨a, hact, haf⟩ := ha.activation
  have hw := haf.built.level
  have hb : σ.graph.blocks[i]? = some (.steps id is) := hi ▸ ha.laid.steps hn
  refine ⟨fun h0 => ha.tied.fine.found_of_needs hact haf hb (by omega)
    (fun k hk => ha.written_of_waits hk) hx h0, fun {holder j g body outer} h0 hh hl hf => ?_⟩
  by_cases hfirst : σ.graph.first ≤ x
  · rw [Machine.holder?_here hact (haf.first ▸ hfirst)] at hh
    cases hh
    obtain ⟨rfl, rfl⟩ := List.cons_eq_cons.mp (haf.levels.symm.trans hl)
    have hm : σ.graph.Makes x j := hw.makes_of_mem haf.fits hf rfl h0 hfirst hb hx
    obtain ⟨hlevel, -⟩ := ha.laid.ordered
    refine fun l hl => ha.isSome_declared (hlevel hn ((hw.isFunction_iff hf).mp rfl) ?_ hl)
    exact ⟨_, hi ▸ hb, x, hx, hm⟩
  · exact ha.tied.introduced_outer hact haf.levels hb hx h0 (Int32.not_le.mp hfirst) hh hl hf

/-! ### Blocks that are written -/

/-- The next block of the machine is written. -/
theorem put {i : Nat} {b : Block} (s : Slot) (before' : List Given)
    (ha : σ.At h h' t before (i :: rest)) (hb : σ.graph.blocks[i]? = some b)
    (hw : b.MayWrite t.sites t.machine σ.scene.scope σ.graph i s)
    (hv : rest.filter (σ.graph.functionCount ≤ ·) =
      List.range' (σ.graph.functionCount + (Given.values before').length)
        (σ.graph.blocks.length - (σ.graph.functionCount + (Given.values before').length)))
    (hf : (functions before').length = (functions before).length) :
    ∃ m, Run.put σ.scene.scope b.id s t.machine = .ok () m ∧
      Le σ.scene.scope t { t with machine := m } ∧ σ.At h h' { t with machine := m } before' rest ∧
      m.slot? σ.scene.scope b.id = some s := by
  obtain ⟨a, hact, haf⟩ := ha.activation
  have hi := (List.getElem?_eq_some_iff.mp hb).1
  have hfree := ha.free
  rw [Machine.slot?_eq_of_activation hact] at hfree
  obtain ⟨hle, htied⟩ := ha.tied.store hact haf hb hfree hw
  have hslot (x : ValueId) := Machine.slot?_store hact (haf.offset?_block hb) s σ.scene.scope x
  refine ⟨_, put_block hact haf hb hfree s, hle, ?_, ?_⟩
  · obtain ⟨done, horder, hwritten⟩ := ha.visited
    refine ⟨htied, ha.laid, Nat.lt_of_lt_of_le ha.lt hle.grows.size_le, ha.site, ha.image, ha.few,
      SymbolsRelated.mono hle.link ha.environment, ⟨done ++ [i], ?_, fun k hk => ?_⟩, hv, ?_⟩
    · rw [horder, List.append_assoc]
      rfl
    · show ((t.machine.store _ _ s).slot? _ _).isSome = true ↔ _
      rw [hslot, List.mem_append, List.mem_singleton, ← hwritten k hk]
      by_cases he : k = i
      · rw [if_pos ⟨rfl, by rw [he]⟩, he]
        simp
      · rw [if_neg fun hx => he ?_, or_iff_left he]
        have := haf.fits.slot_inj (by unfold Level.slotCount; omega)
          (by unfold Level.slotCount; omega) hx.2
        omega
    · rw [hf]
      exact ha.declared
  · rw [haf.id_eq hb]
    exact (hslot _).trans (if_pos ⟨rfl, rfl⟩)

/-- The machine declares a function. -/
theorem visit_function (answer' : Request → Run Value) {i : Nat}
    (ha : σ.At h h' t before (i :: rest)) (hi : i < σ.graph.functionCount) :
    ∃ m, σ.graph.runBlock answer' σ.frame i t.machine = .ok () m ∧
      Le σ.scene.scope t { t with machine := m } ∧
        σ.At h h' { t with machine := m } before rest := by
  have hw := ha.laid.built.level
  have hlt : i < σ.graph.blocks.length := Nat.lt_of_lt_of_le hi σ.graph.functionCount_le
  rcases Machine.Fine.block_cases hw hlt with ⟨-, id, body, hb⟩ | ⟨hge, -⟩
  · obtain ⟨m, hput, hle, hat, -⟩ := ha.put (.declared body σ.unit id) before hb
      ⟨by rw [ha.site], fun k hk hck => ha.written_of_waits
        (hw.waiting_iff.mpr ⟨by omega, .inr (.inr ⟨hi, hck, i, .refl, hk⟩)⟩)⟩
      (by rw [← ha.values, List.filter_cons_of_neg (by simpa using hi)]) rfl
    refine ⟨m, ?_, hle, hat⟩
    rw [Graph.runBlock, hb]
    exact hput
  · omega

/-- The machine declares functions. -/
theorem visit_functions (answer' : Request → Run Value) {is : List Nat}
    (ha : σ.At h h' t before (is ++ rest)) (hi : ∀ i ∈ is, i < σ.graph.functionCount) :
    ∃ m, is.forM (σ.graph.runBlock answer' σ.frame) t.machine = .ok () m ∧
      Le σ.scene.scope t { t with machine := m } ∧
        σ.At h h' { t with machine := m } before rest := by
  induction is generalizing t with
  | nil => exact ⟨t.machine, rfl, .refl _ t, ha⟩
  | cons i is ih =>
    obtain ⟨m, hrun, hle, hat⟩ := ha.visit_function answer' (hi i List.mem_cons_self)
    obtain ⟨m', hrun', hle', hat'⟩ := ih hat fun j hj => hi j (List.mem_cons_of_mem i hj)
    exact ⟨m', (Run.bind_ok hrun).trans hrun', hle.trans hle', hat'⟩

end At

/-! ## Evaluations beside visits -/

/-- An evaluation goes along with the first of the visits that are left; or an error of it stops the
visits. -/
inductive Visited (σ : Stage) (h : SourceHost) (h' : Host) (answer' : Request → Run Value)
    (t : Tandem) (rest : List Nat) {α : Type} (R : Tandem → α → List Nat → Prop) :
    EStateM.Result Stop World α → Prop where
  | ok (t' : Tandem) {a : α} (now : List Nat) {rest' : List Nat} (hrest : rest = now ++ rest')
    (hrun : now.forM (σ.graph.runBlock answer' σ.frame) t.machine = .ok () t'.machine)
    (hle : Le σ.scene.scope t t') (hr : R t' a rest') :
    Visited σ h h' answer' t rest R (.ok a t'.world)
  | error (t' : Tandem) (e : Stop)
    (hrun : rest.forM (σ.graph.runBlock answer' σ.frame) t.machine = .error e t'.machine)
    (hle : Le σ.scene.scope t t') (ht : t'.Tied h h') :
    Visited σ h h' answer' t rest R (.error e t'.world)

/-- The same if the calls of the evaluation are indifferent. -/
def Visits (σ : Stage) (h : SourceHost) (h' : Host) (answer' : Request → Run Value) (t : Tandem)
    (rest : List Nat) {α : Type} (R : Tandem → α → List Nat → Prop)
    (r : Calls × EStateM.Result Stop World α) : Prop :=
  h.AllIndifferent r.1 → σ.Visited h h' answer' t rest R r.2

theorem forM_append (f : Nat → Run Unit) (is js : List Nat) :
    (is ++ js).forM f = is.forM f >>= fun _ => js.forM f := List.forM_append

namespace Visits

variable {α β : Type} {R : Tandem → α → List Nat → Prop} {S : Tandem → β → List Nat → Prop}

theorem pure {a : α} (hr : R t a rest) :
    σ.Visits h h' answer' t rest R ((Pure.pure a : Evaluation α) t.world) :=
  fun _ => .ok t [] rfl rfl (.refl _ t) hr

theorem mono {S : Tandem → α → List Nat → Prop} {r : Calls × EStateM.Result Stop World α}
    (hx : σ.Visits h h' answer' t rest R r)
    (hs : ∀ t' a rest', Le σ.scene.scope t t' → R t' a rest' → S t' a rest') :
    σ.Visits h h' answer' t rest S r := by
  intro hc
  have hout := hx hc
  generalize r.2 = r' at hout ⊢
  cases hout with
  | ok t' now hrest hrun hle hr => exact .ok t' now hrest hrun hle (hs _ _ _ hle hr)
  | error t' e hrun hle ht => exact .error t' e hrun hle ht

/-- One evaluation after another. -/
theorem bind {x : Evaluation α} {f : α → Evaluation β}
    (hx : σ.Visits h h' answer' t rest R (x t.world))
    (hf : ∀ t' a rest', Le σ.scene.scope t t' → R t' a rest' →
      σ.Visits h h' answer' t' rest' S (f a t'.world)) :
    σ.Visits h h' answer' t rest S ((x >>= f) t.world) := by
  intro hc
  obtain ⟨hcx, hcf⟩ := Evaluation.indifferent_of_bind hc
  have hout := hx hcx
  rw [Evaluation.bind_snd]
  generalize hw : (x t.world).2 = r at hout ⊢
  cases hout with
  | error t' e hrun hle ht => exact .error t' e hrun hle ht
  | @ok t' a now rest' hrest hrun hle hr =>
    have hrest' := hf t' a rest' hle hr (hcf hw)
    dsimp only
    generalize (f a t'.world).2 = r' at hrest' ⊢
    subst hrest
    cases hrest' with
    | ok t'' now' hnow' hrun' hle' hr' =>
      subst hnow'
      refine .ok t'' (now ++ now') (List.append_assoc ..).symm ?_ (hle.trans hle') hr'
      rw [forM_append, Run.bind_ok hrun, hrun']
    | error t'' e hrun' hle' ht =>
      refine .error t'' e ?_ (hle.trans hle') ht
      rw [forM_append, Run.bind_ok hrun, hrun']

/-- What comes of the evaluation and of the visits, and of what follows them. -/
theorem outcome {γ : Type} {x : Evaluation α} {f : α → Evaluation β} {y : Run γ}
    {Q : Tandem → β → γ → Prop} (hx : σ.Visits h h' answer' t rest R (x t.world))
    (hf : ∀ t' a rest', Le σ.scene.scope t t' → R t' a rest' →
      Together h h' σ.scene.scope t' Q (f a t'.world)
        ((rest'.forM (σ.graph.runBlock answer' σ.frame) >>= fun _ => y) t'.machine)) :
    Together h h' σ.scene.scope t Q ((x >>= f) t.world)
      ((rest.forM (σ.graph.runBlock answer' σ.frame) >>= fun _ => y) t.machine) := by
  intro hc
  obtain ⟨hcx, hcf⟩ := Evaluation.indifferent_of_bind hc
  have hout := hx hcx
  rw [Evaluation.bind_snd]
  generalize hw : (x t.world).2 = r at hout ⊢
  cases hout with
  | error t' e hrun hle ht =>
    rw [Run.bind_error hrun]
    exact .error t' e hle ht
  | @ok t' a now rest' hrest hrun hle hr =>
    subst hrest
    rw [forM_append, bind_assoc, Run.bind_ok hrun]
    exact .later hle (Nat.le_refl _) (hf t' a rest' hle hr (hcf hw))

end Visits

namespace At

/-- **The next value**: the machine declares what it needs, finds all that it reads, and keeps it. -/
theorem visit_value {id : ValueId} {is : List Instruction} (ha : σ.At h h' t before rest)
    (hn : σ.numbering.given = before ++ .value id is :: after) {x : Evaluation Value}
    (hx : ∀ t', Le σ.scene.scope t t' → t'.Tied h h' → t'.world = t.world →
      t'.sites σ.scene.scope = ⟨σ.graph :: σ.outer, σ.unit⟩ →
      (∀ a ∈ (Block.steps id is).needs, t'.Readable σ.scene.scope a) →
      Together h h' t'.machine.activations.size t' (fun t' v v' => Value.Related t'.link v v')
        (x t'.world) (runSteps answer' σ.frame id [] is t'.machine)) :
    σ.Visits h h' answer' t rest (fun t' v rest' => σ.At h h' t' (before ++ [.value id is]) rest' ∧
      t'.Known σ.scene.scope (σ.numbering.next (before ++ [.value id is])) v id ∧
      ∃ calls w, x t.world = (calls, .ok v w)) (x t.world) := by
  intro hc
  have hn' : σ.numbering.given = (before ++ [.value id is]) ++ after := by simpa using hn
  have hcount : (Given.values (before ++ [.value id is])).length =
      (Given.values before).length + 1 := by
    rw [Given.values_append, List.length_append]
    rfl
  have hle := ha.laid.values_le hn'
  have hvalues := ha.values
  obtain ⟨i, hi⟩ : ∃ i, i = σ.graph.functionCount + (Given.values before).length := ⟨_, rfl⟩
  obtain ⟨k, hk⟩ : ∃ k, σ.graph.blocks.length - i = k + 1 :=
    ⟨σ.graph.blocks.length - i - 1, by omega⟩
  rw [← hi, hk, List.range'_succ, List.filter_eq_cons_iff] at hvalues
  obtain ⟨fs, rest', rfl, hfs, -, hrest'⟩ := hvalues
  obtain ⟨m, hrun, hle₁, hat₁⟩ := ha.visit_functions answer'
    fun f hf => by simpa using hfs f hf
  have hb : σ.graph.blocks[i]? = some (.steps id is) := hi ▸ ha.laid.steps hn
  have hblock (m' : Machine) : σ.graph.runBlock answer' σ.frame i m' =
      (runSteps answer' σ.frame id [] is >>= Run.write σ.scene.scope id) m' := by
    rw [Graph.runBlock, hb]
    rfl
  have hout := hx _ hle₁ hat₁.tied rfl hat₁.site (fun a ha' => hat₁.readable hn hi ha') hc
  dsimp only at hout
  generalize x t.world = r at hout ⊢
  generalize hr' : runSteps answer' σ.frame id [] is m = r' at hout
  obtain ⟨calls, r⟩ := r
  dsimp only at hout ⊢
  have hscope := Nat.le_of_lt hat₁.lt
  cases hout with
  | error t₂ e hle₂ ht₂ =>
    refine .error t₂ e ?_ (hle₁.trans (hle₂.mono hscope)) ht₂
    rw [forM_append, Run.bind_ok hrun]
    exact Run.bind_error (hblock m ▸ Run.bind_error hr')
  | @ok t₂ v v' hle₂ ht₂ hv =>
    have hat₂ := hat₁.later hle₂ ht₂
    obtain ⟨m₃, hput, hle₃, hat₃, hslot⟩ := hat₂.put (.keep σ.scene.scope v')
      (before ++ [.value id is]) hb (Slot.fine_keep (ht₂.fine_of_related hv))
      (by rw [hrest', hcount]; congr 1 <;> omega) (by rw [functions_append]; simp [functions])
    have hwrite : σ.graph.runBlock answer' σ.frame i m = .ok () m₃ := by
      rw [hblock, Run.bind_ok hr']
      exact hput
    obtain ⟨a, hact, haf⟩ := hat₃.activation
    refine .ok { t₂ with machine := m₃ } (fs ++ [i]) (by simp) ?_ ?_
      ⟨hat₃, ⟨?_, ha.laid.value_lt_next hn⟩, _, _, rfl⟩
    · rw [forM_append, Run.bind_ok hrun]
      exact (Run.bind_ok hwrite).trans rfl
    · exact hle₁.trans ((hle₂.mono hscope).trans hle₃)
    · refine .kept (ha.laid.value_nonneg hn) (Machine.holder?_here hact ?_) hslot
        (hle₃.keeps (ht₂.keeps hv))
      exact haf.first ▸ ha.laid.first_le_value hn

/-- The evaluation declares a function. -/
theorem declare {id : ValueId} {scope : Numbering} {params : List String} {body : Node} {T : Tables}
    {names : Bindings} (ha : σ.At h h' t before rest)
    (hn : σ.numbering.given = before ++ .function id scope :: after)
    (hf : Node.RendersFunction σ.scene.environment.idOf? σ.image.Holds params body T scope)
    (hnames : List.Forall₂ (t.Names σ.scene.scope (σ.numbering.next before)) names T.names) :
    σ.Visits h h' answer' t rest
      (fun t' _ rest' => σ.At h h' t' (before ++ [.function id scope]) rest')
      (Evaluation.declare σ.scene.scope
        ⟨params, body, scope.labels, names, σ.scene.environment⟩ t.world) := by
  obtain ⟨g, hb, hlaid⟩ := ha.laid.body hn hf.hoisted_eq
  obtain ⟨ds, hds, hsize⟩ := ha.declared
  have hunit := ha.tied.fine.unit ha.lt
  have hfirst : σ.numbering.next before = g.first := by
    rw [ha.laid.body_first hn hlaid.agrees, Numbering.next, ← ha.laid.first]
    rfl
  obtain ⟨w, hrun, hle, ht, hnew⟩ := ha.tied.declare hds (by rw [ha.site]) (hsize ▸ hb)
    (d := ⟨params, body, scope.labels, names, σ.scene.environment⟩) (n := scope) (T := T) (by
      rw [ha.site] at hunit ⊢
      refine ⟨hlaid, ?_, rfl, hunit, ha.few, ?_, ?_⟩
      · rw [ha.image]
        exact hf
      · rw [ha.image]
        exact ha.environment
      · exact hnames.imp fun _ _ hx => ⟨_, rfl, hfirst ▸ hx⟩)
  rw [hrun]
  have hvalues : Given.values (before ++ [.function id scope]) = Given.values before := by
    rw [Given.values_append]
    exact List.append_nil _
  refine fun _ => .ok { t with world := w } [] rfl rfl hle ⟨ht, ha.laid, ha.lt, ha.site,
    ha.image, ha.few, SymbolsRelated.mono hle.link ha.environment, ha.visited, ?_, ?_⟩
  · rw [hvalues]
    exact ha.values
  · refine ⟨_, hnew, ?_⟩
    rw [Array.size_push, hsize, functions_append, List.length_append]
    rfl

end At

end Stage

end Dataflow
