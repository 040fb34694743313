import Dataflow.Proofs.Direct.Bodies

/-!
# Functions that are called

Functions are entered with the same arguments on both sides. What they capture is known in the new
activation, and so are their parameters and the functions that they declare.

* `Tandem.entered`, `Tandem.Tied.enter`: a new activation on both sides;
* `Stage.At.declares_hoisted`: the functions of a body are known before its first statement;
* `Tandem.Prepared.start`, `Tandem.Prepared.names_params`, `Tandem.Prepared.names_captured`: where a
  function starts, and what is known there;
* **`Tandem.Prepared.run`**: functions that were compiled to graphs.
-/

namespace Dataflow

open Run Given

namespace Tandem

variable {t t' : Tandem} {h : SourceHost} {h' : Host} {g : Graph} {count unit : Nat}
  {parent : Option Nat} {args args' : List Value}

/-! ## A new activation -/

/-- Both sides make an activation, the evaluation one that declares `count` functions, the machine one
for a graph and its arguments. -/
def entered (t : Tandem) (count : Nat) (g : Graph) (unit : Nat) (parent : Option Nat)
    (args : List Value) : Tandem where
  pairs := t.pairs
  pairs_iff := t.pairs_iff
  copies := t.copies
  copies_eq := t.copies_eq
  sites := Site.grow t.sites t.machine (levelsOf t.sites g parent) unit
  world := { t.world with
    activations := t.world.activations.push #[], identities := t.world.identities + count }
  machine := t.machine.grow (bound g parent t.machine.activations.size args)

theorem bound_shape (g : Graph) (parent : Option Nat) (scope : Nat) (args : List Value) :
    (bound g parent scope args).parent = parent ∧ (bound g parent scope args).first = g.first := by
  obtain ⟨hparent, hfirst, -⟩ := Activation.shape_eq (Activation.shape_putAll
    (.blank parent g.first g.slotCount) scope 0 args)
  exact ⟨hparent, hfirst⟩

/-- A function is called only when all that it can reach has been declared. -/
def Reachable (t : Tandem) (g : Graph) (parent : Option Nat) : Prop :=
  ∀ p, parent = some p → ∃ g' outer j id, (t.sites p).levels = g' :: outer ∧
    g'.blocks[j]? = some (.function id g) ∧ t.Introduced g' p j

section Enter

variable (ht : t.Tied h h')
include ht

theorem Tied.le_entered : Le t.machine.activations.size t (t.entered count g unit parent args) := by
  have hworld (i : Nat) (hi : i < t.machine.activations.size) :
      (t.world.activations.push #[])[i]? = t.world.activations[i]? := by
    rw [Array.getElem?_push, if_neg (by rw [ht.size]; omega)]
  refine ⟨.grow _ _ _, fun hp => hp, fun hp => hp, Nat.le_add_right _ _, fun {scope j d} hd => ?_,
    fun i hi => ?_, hworld⟩
  · obtain ⟨ds, hds, hj⟩ := Option.bind_eq_some_iff.mp hd
    have hlt := (Array.getElem?_eq_some_iff.mp hds).1
    rw [ht.size] at hlt
    exact Option.bind_eq_some_iff.mpr ⟨ds, (hworld scope hlt).trans hds, hj⟩
  · exact (Machine.activations_grow ..).trans (if_neg (by omega))

/-- **Both sides go on in a new activation.** -/
theorem Tied.enter (hc : Callable (fun _ => True) t.sites t.machine g unit parent args)
    (hfits : g.Fits) (hne : g.blocks ≠ []) (hr : t.Reachable g parent) :
    (t.entered count g unit parent args).Tied h h' := by
  have hle : Le t.machine.activations.size t (t.entered count g unit parent args) := ht.le_entered
  have later {i i' : Nat} (hp : i < t.world.identities ∧ i' < t.machine.identities) :
      i < t.world.identities + count ∧ i' < t.machine.identities :=
    ⟨Nat.lt_add_right count hp.1, hp.2⟩
  refine ⟨ht.fine.grow hc hfits hne, ?_, fun hp => later (ht.pairs_lt hp),
    fun hp => later (ht.copies_lt hp), ht.printed, ht.loads, fun {scope j d} hd => ?_,
    fun {scope a p} ha hp => ?_, hle.serves ht.serves⟩
  · show (t.world.activations.push _).size = (t.machine.activations.push _).size
    rw [Array.size_push, Array.size_push, ht.size]
  · obtain ⟨ds, hds, hj⟩ := Option.bind_eq_some_iff.mp hd
    have hds' : (t.world.activations.push #[])[scope]? = some ds := hds
    rw [Array.getElem?_push] at hds'
    split at hds'
    case isTrue =>
      cases hds'
      cases hj
    case isFalse =>
      have hlt := (Array.getElem?_eq_some_iff.mp hds').1
      rw [ht.size] at hlt
      obtain ⟨g', outer, id, body, n, T, hl, hb, hp⟩ :=
        ht.declared (Option.bind_eq_some_iff.mpr ⟨ds, hds', hj⟩)
      rw [hle.grows.sites hlt]
      refine ⟨g', outer, id, body, n, T, hl, hb, hle.prepared ht.fine hp ?_⟩
      rintro p ⟨⟩
      exact hlt
  · have ha' := (Machine.activations_grow ..).symm.trans ha
    split at ha'
    case isTrue he =>
      subst he
      cases ha'
      obtain rfl : parent = some p := (bound_shape ..).1.symm.trans hp
      obtain ⟨g', outer, j, id, hl, hb, hi⟩ := hr p rfl
      have hps := (hc.of_some rfl).1
      refine ⟨g, g', outer, j, id, ?_, by rw [hle.grows.sites hps, hl], hb, hle.introduced hi⟩
      show (Site.grow t.sites t.machine (levelsOf t.sites g (some p)) unit _).levels = _
      rw [Site.grow, Function.update_self, levelsOf, hl]
    case isFalse =>
      have hlt := (Array.getElem?_eq_some_iff.mp ha').1
      obtain ⟨g₁, g', outer, j, id, hl, hl', hb, hi⟩ := ht.parent ha' hp
      have hps := Nat.lt_trans (ht.fine.nested ha' hp) hlt
      exact ⟨g₁, g', outer, j, id, by rw [hle.grows.sites hlt, hl], by rw [hle.grows.sites hps, hl'],
        hb, hle.introduced hi⟩

end Enter

/-- What an activation keeps of the arguments with which its graph was entered. -/
theorem slot?_bound (hg : g.Fits) (ha : args.length = g.params.toNat) (parent : Option Nat)
    (scope : Nat) {k : Nat} (hk : k < g.slotCount) : (bound g parent scope args).slot? (g.slot k) =
      if h : k < args.length then some (.keep scope (args.get ⟨k, h⟩)) else none := by
  rw [bound, Activation.slot?_putAll hg rfl (by simp [Activation.blank]) _ 0 args
    (by rw [ha]; unfold Level.slotCount; omega) hk]
  by_cases h : k < args.length
  · rw [dif_pos (by omega), dif_pos h]
    rfl
  · rw [dif_neg (by omega), dif_neg h, Activation.slot?_blank]

/-- What is known where a function was declared is known in its activations. -/
theorem Tied.means_entered (ht : t.Tied h h') {p : Nat}
    (hc : Callable (fun _ => True) t.sites t.machine g unit (some p) args) {v : Value}
    {id : ValueId} (hm : t.Means p v id) (hlt : id < g.first) :
    (t.entered count g unit (some p) args).Means t.machine.activations.size v id := by
  have hle : Le t.machine.activations.size t (t.entered count g unit (some p) args) :=
    ht.le_entered
  obtain ⟨hps, hunit, -⟩ := hc.of_some rfl
  have hact : (t.entered count g unit (some p) args).machine.activations[t.machine.activations.size]? =
      some (bound g (some p) t.machine.activations.size args) :=
    (Machine.activations_grow ..).trans (if_pos rfl)
  obtain ⟨hparent, hfirst⟩ := bound_shape g (some p) t.machine.activations.size args
  have hholder := Machine.holder?_outer hact (hfirst ▸ hlt) hparent hps
  have hsite : ((t.entered count g unit (some p) args).sites t.machine.activations.size).unit =
      ((t.entered count g unit (some p) args).sites p).unit := by
    rw [hle.grows.sites hps, hunit]
    show (Site.grow t.sites t.machine (levelsOf t.sites g (some p)) unit _).unit = unit
    rw [Site.grow, Function.update_self]
  cases hle.means ht.fine hps hm with
  | builtin hid hv hr => exact .builtin hid (hsite ▸ hv) hr
  | kept hid hh hs hk => exact .kept hid (hholder.trans hh) hs hk
  | declared hid hh hl hb hp hi => exact .declared hid (hholder.trans hh) hl hb hp hi

end Tandem

/-! ## The start of a function -/

namespace Stage.At

open Tandem Stage

variable {σ : Stage} {t : Tandem} {h : SourceHost} {h' : Host} {before : List Given} {rest : List Nat}

/-- A function of the level is known before it is declared. -/
theorem known_function {after : List Given} (hat : σ.At h h' t before rest)
    (hn : σ.numbering.given = before ++ after) {j : Nat} {id : ValueId} {body : Graph}
    (hb : σ.graph.blocks[j]? = some (.function id body)) {params : UInt32}
    (hp : params = body.params) {i : Nat} (hi : i < t.world.identities) :
    t.Known σ.scene.scope (σ.numbering.next before)
      (.function (.closure i ⟨⟨0, params, [], []⟩, j, σ.scene.scope, id⟩)) id := by
  obtain ⟨a, hact, haf⟩ := hat.activation
  have hj := (List.getElem?_eq_some_iff.mp hb).1
  have hjf := (hat.laid.built.level.isFunction_iff hb).mp rfl
  have hid : id = _ := haf.id_eq hb
  have hint := hat.laid.room.toInt_slot (n := σ.graph.params.toNat + j)
    (by unfold Level.slotCount; omega)
  have h0 := (hat.laid.room _ σ.graph.self_mem_levels).1
  refine ⟨.declared ?_ (Machine.holder?_here hact ?_) haf.levels hb hp hi, ?_⟩
  · rw [Int32.le_iff_toInt_le, hid, hint]
    exact Int.add_nonneg h0 (Int.natCast_nonneg _)
  · rw [haf.first, Int32.le_iff_toInt_le, hid, hint]
    omega
  · rw [Int32.lt_iff_toInt_lt, hid, hint, hat.laid.toInt_next hn]
    omega

/-- The functions of a body are known before its first statement. -/
theorem declares_hoisted {items : List Node} {hoisted : List ValueId} {T T' : Tables}
    {gs before' after after' : List Given} {last : Option ValueId} (hat : σ.At h h' t before rest)
    (hr : Node.RendersBody σ.scene.environment.idOf? σ.image.Holds hoisted items T gs last T')
    (hn : σ.numbering.given = before' ++ gs ++ after)
    (hn' : σ.numbering.given = before ++ after') {first : Nat}
    (hfirst : first + (functions before').length + (Node.functionNames items).length ≤
      t.world.identities) :
    let functions := Node.hoisted σ.scene.scope first (functions before').length
      ((functions gs).map fun f => (f.1, f.2.labels)) items
    List.Forall₂ (t.Names σ.scene.scope (σ.numbering.next before))
        (functions.map fun f => (f.1, f.2.1)) ((Node.functionNames items).zip hoisted) ∧
      List.Forall₂ (σ.Declares t (σ.numbering.next before)) (functions.map Prod.snd)
        (Given.functions gs) := by
  induction items generalizing hoisted T gs before' last with
  | nil =>
    cases hr
    exact ⟨.nil, .nil⟩
  | cons item items ih =>
    cases hr with
    | @function span name params body _ id hoisted _ _ n gs last hrf hr =>
      have hn₁ : σ.numbering.given = before' ++ .function id n :: (gs ++ after) := by simpa using hn
      have hn₂ : σ.numbering.given = before' ++ [.function id n] ++ gs ++ after := by simpa using hn
      have hlater : first + (functions (before' ++ [.function id n])).length +
          (Node.functionNames items).length ≤ t.world.identities := by
        rw [Node.functionNames, List.length_cons] at hfirst
        rw [functions_append, List.length_append, show (functions [.function id n]).length = 1 from rfl]
        omega
      obtain ⟨hnames, hdeclares⟩ := ih hr hn₂ hlater
      obtain ⟨body', hb, hagrees⟩ := hat.laid.block_function hn₁
      have hparams : UInt32.ofNat params.length = body'.params := by
        obtain ⟨-, hparams, -⟩ := hagrees
        rw [← UInt32.ofNat_toNat (x := body'.params), hparams]
        cases hrf with
        | intro hids => rw [hids]
      have hknown := hat.known_function hn' hb hparams
        (i := first + (functions before').length) (by
          rw [Node.functionNames, List.length_cons] at hfirst
          omega)
      rw [functions_append, List.length_append] at hnames hdeclares
      exact ⟨.cons ⟨rfl, hknown⟩ hnames, .cons ⟨hknown, rfl⟩ hdeclares⟩
    | @value _ _ _ _ T₁ _ gs hs id last hi hri hr =>
      have hn₂ : σ.numbering.given = before' ++ gs ++ hs ++ after := by simpa using hn
      have hlater : first + (functions (before' ++ gs)).length +
          (Node.functionNames items).length ≤ t.world.identities := by
        rw [functions_append, hri.functions_eq_nil, List.append_nil]
        cases item with
        | function => cases hi
        | _ => exact hfirst
      have hih := ih hr hn₂ hlater
      rw [functions_append, List.length_append, hri.functions_eq_nil] at hih
      rw [functions_append, hri.functions_eq_nil, List.nil_append]
      cases item with
      | function => cases hi
      | _ => exact hih

end Stage.At

namespace Tandem.Prepared

open Stage

variable {t : Tandem} {h : SourceHost} {h' : Host} {d : Declaration} {g : Graph} {unit : Nat}
  {parent : Option Nat} {n : Numbering} {T : Tables} {args args' : List Value}
  {answer : Request → Evaluation Value} {answer' : Request → Run Value}

/-- Where a function runs that is called. -/
def stage (t : Tandem) (d : Declaration) (g : Graph) (unit : Nat) (parent : Option Nat)
    (n : Numbering) (depth : Nat) : Stage :=
  ⟨n, g, (levelsOf t.sites g parent).tail, unit, t.machine.image unit,
    ⟨d.environment, t.machine.activations.size, depth⟩⟩

section Start

variable (hd : t.Prepared d g unit parent n T) (ht : t.Tied h h')
  (hc : Callable (fun _ => True) t.sites t.machine g unit parent args')
include hd ht hc

/-- Both sides are at the start of the function. -/
theorem start (count : Nat) (hr : t.Reachable g parent) (depth : Nat) :
    (stage t d g unit parent n depth).At h h' (t.entered count g unit parent args') []
      (Peel.order g.blocks.length g.dependents) := by
  have hle : Le t.machine.activations.size t (t.entered count g unit parent args') := ht.le_entered
  have hfits := hd.laid.fits
  refine ⟨ht.enter hc hfits hd.laid.nonempty hr, hd.laid, ?_, ?_, rfl, hd.few,
    SymbolsRelated.mono hle.link hd.environment, ⟨[], rfl, fun i hi => ?_⟩, ?_, #[], ?_, rfl⟩
  · show _ < (t.machine.activations.push _).size
    rw [Array.size_push]
    exact Nat.lt_succ_self _
  · exact Function.update_self ..
  · show ((t.machine.grow _).slot? t.machine.activations.size _).isSome = true ↔ _
    have hi' : i < g.blocks.length := hi
    rw [Machine.slot?_grow, if_pos rfl]
    show ((bound g parent _ args').slot? (g.slot (g.params.toNat + i))).isSome = true ↔ _
    rw [slot?_bound hfits hc.length parent _ (by unfold Level.slotCount; omega),
      dif_neg (by rw [hc.length]; omega)]
    simp
  · exact hd.laid.inProgramOrder.increasing
  · show (t.world.activations.push #[])[t.machine.activations.size]? = some #[]
    rw [← ht.size, Array.getElem?_push_size]

/-- Parameters stand for the arguments. -/
theorem names_params (count : Nat) (hargs : Value.AllRelated t.link args args') (next : ValueId)
    (hnext : ∀ id ∈ n.params, id < next) :
    List.Forall₂ ((t.entered count g unit parent args').Names t.machine.activations.size next)
      (d.params.zip args) (d.params.zip n.params) := by
  have hle : Le t.machine.activations.size t (t.entered count g unit parent args') := ht.le_entered
  have hparams := hd.laid.params
  have hlength := hargs.length_eq
  have hargs' := hc.length
  have hact : (t.entered count g unit parent args').machine.activations[t.machine.activations.size]? =
      some (bound g parent t.machine.activations.size args') :=
    (Machine.activations_grow ..).trans (if_pos rfl)
  refine List.forall₂_iff_get.mpr ⟨?_, fun i hi hi' => ?_⟩
  · simp only [List.length_zip]
    omega
  · simp only [List.length_zip] at hi hi'
    have hp : i < n.params.length := by omega
    simp only [List.get_eq_getElem, List.getElem_zip]
    refine ⟨rfl, ?_, hnext _ (List.getElem_mem hp)⟩
    have hslot : n.params[i] = g.slot i := hd.laid.params_getElem hp
    have hint := hd.laid.room.toInt_slot (n := i) (by unfold Level.slotCount; omega)
    have h0 := (hd.laid.room g g.self_mem_levels).1
    refine .kept ?_ (Machine.holder?_here hact ?_) ?_
      (hle.keeps (ht.keeps (hargs.get (by omega) (by omega))))
    · rw [Int32.le_iff_toInt_le, hslot, hint]
      exact Int.add_nonneg h0 (Int.natCast_nonneg _)
    · rw [(bound_shape ..).2, Int32.le_iff_toInt_le, hslot, hint]
      omega
    · show (t.machine.grow _).slot? t.machine.activations.size _ = _
      rw [Machine.slot?_grow, if_pos rfl, hslot, slot?_bound hd.laid.fits hc.length parent _
        (by unfold Level.slotCount; omega), dif_pos (by omega)]

/-- What was known where the function was declared is known at its start. -/
theorem names_captured (count : Nat) (next : ValueId) (hnext : g.first ≤ next) :
    List.Forall₂ ((t.entered count g unit parent args').Names t.machine.activations.size next) d.names
      T.names := by
  refine hd.names.imp fun b x hx => ?_
  obtain ⟨p, rfl, hname, hmeans, hlt⟩ := hx
  exact ⟨hname, ht.means_entered hc hmeans hlt, Int32.lt_of_lt_of_le hlt hnext⟩

end Start

/-- **Functions run as the graphs do that they were compiled to.** -/
theorem run (ha : Answers h h' answer answer') (ht : t.Tied h h')
    (hd : t.Prepared d g unit parent n T)
    (hc : Callable (fun _ => True) t.sites t.machine g unit parent args')
    (hr : t.Reachable g parent) (hargs : Value.AllRelated t.link args args') (depth : Nat) :
    Together h h' t.machine.activations.size t (fun t' v v' => Value.Related t'.link v v')
      (d.run answer depth args t.world) (g.run answer' unit depth parent args' t.machine) := by
  obtain ⟨count, hcount⟩ : ∃ n, n = (Node.functionNames d.body.bodyItems).length := ⟨_, rfl⟩
  have hat := hd.start ht hc count hr depth
  have hle : Le t.machine.activations.size t (t.entered count g unit parent args') := ht.le_entered
  have hgiven : n.given = [] ++ n.given := rfl
  have hnext := hd.laid.toInt_next hgiven
  have hmem {id : ValueId}
      (hid : id ∈ n.params ++ n.hoisted ++ (Given.values n.given).map Prod.fst) : g.first ≤ id := by
    obtain ⟨k, hk, rfl⟩ := hd.laid.slot_of_mem hid
    rw [Int32.le_iff_toInt_le, hd.laid.room.toInt_slot (Nat.le_of_lt hk)]
    omega
  have hparams := hd.names_params ht hc count hargs (n.next []) fun id hid => by
    obtain ⟨k, hk, rfl⟩ := List.getElem_of_mem hid
    have := hd.laid.params
    rw [Int32.lt_iff_toInt_lt, hnext, hd.laid.params_getElem hk,
      hd.laid.room.toInt_slot (by unfold Level.slotCount; omega)]
    omega
  have hcaptured := hd.names_captured ht hc count (n.next []) (by
    rw [Int32.le_iff_toInt_le, hnext]
    omega)
  obtain ⟨-, -, -, -, -, -, -, -, -, hresult⟩ := hd.laid.agrees
  have hlabels := hd.labels
  cases hd.renders with
  | @intro _ _ _ T₁ T₂ first ids hoisted gs hs last id hids hh hbody hconcludes =>
    have hlabels' : d.labels.functions = (functions gs).map fun f => (f.1, f.2.labels) := by
      rw [hlabels]
      show allLabels (gs ++ hs) = _
      rw [allLabels_eq, functions_append, hconcludes.functions_eq_nil, List.append_nil]
    have hitems : gs ++ hs = [] ++ gs ++ hs := rfl
    have hroom : t.world.identities + (functions ([] : List Given)).length +
        (Node.functionNames d.body.bodyItems).length ≤
        (t.entered count g unit parent args').world.identities := by
      show _ ≤ t.world.identities + count
      rw [hcount]
      exact Nat.le_refl _
    obtain ⟨hnames, hdeclares⟩ := hat.declares_hoisted hbody hitems hgiven hroom
    have hknows : (stage t d g unit parent _ depth).Knows (t.entered count g unit parent args') []
        _ (T.enter (d.params.zip ids) ((Node.functionNames d.body.bodyItems).zip hoisted)) :=
      ⟨List.rel_append (List.rel_append (List.rel_reverse hnames) (List.rel_reverse hparams))
        hcaptured, nofun, fun hlast => by
          obtain ⟨x, hx, rfl⟩ := List.mem_map.mp (List.mem_of_getLast? hlast)
          exact hmem (by simp [(List.of_mem_zip hx).2])⟩
    rw [Graph.run_eq_enter hresult,
      Run.bind_ok (enter_bound hd.laid.fits unit depth parent hc.length t.machine)]
    have henter : Evaluation.enter t.world = ([], .ok t.machine.activations.size
        { t.world with activations := t.world.activations.push #[] }) := by
      rw [← ht.size]
      rfl
    have hreserve : Evaluation.reserve (Node.functionNames d.body.bodyItems).length
        { t.world with activations := t.world.activations.push #[] } =
          ([], .ok t.world.identities (t.entered count g unit parent args').world) := by
      rw [hcount]
      rfl
    rw [Declaration.run, Evaluation.bind_ok henter, Evaluation.bind_ok hreserve, hlabels']
    refine .later hle (Nat.le_refl _) ?_
    have hstatements :=
      Node.follows_statements ha d.body.bodyItems hbody hitems hat hknows hdeclares
    refine hstatements.outcome fun t₁ r rest₁ hle₁ hends => ?_
    obtain ⟨hat₁, hknown₁, names₁, hknows₁⟩ := hends
    have hconclude := @Concludes.visits _ h h' answer' _ _ hs [] _ _ _ _ _ _ _ hconcludes
      (List.append_nil _).symm hat₁ hknows₁ hknown₁
    have hresult := hconclude.outcome (f := pure) fun t₂ r₂ rest₂ hle₂ hgives =>
      hgives.here.result hgives.known
    rwa [bind_pure] at hresult

end Tandem.Prepared

end Dataflow
