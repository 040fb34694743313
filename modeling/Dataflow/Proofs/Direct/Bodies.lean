import Dataflow.Proofs.Direct.Expressions
import Dataflow.Proofs.Run.Sequential

/-!
# Statements and the visits of their blocks

The evaluation of the statements of a body goes along with the visits of the blocks of its level. In
the end the value of the last statement is read on both sides.

* `Stage.Ends`: both sides have come behind statements;
* **`Node.follows_statements`**: statements;
* `Stage.At.result`: the value of a level of which all statements have been evaluated.
-/

namespace Dataflow

open Run Given Tandem Stage

variable {σ : Stage} {h : SourceHost} {h' : Host} {answer : Request → Evaluation Value}
  {answer' : Request → Run Value}

/-! ## Statements -/

/-- Both sides have come behind statements: the value of the last one is known, and so are names. -/
structure Stage.Ends (σ : Stage) (h : SourceHost) (h' : Host) (before : List Given)
    (last : Option ValueId) (T : Tables) (t : Tandem) (r : Option Value) (rest : List Nat) :
    Prop where
  here : σ.At h h' t before rest
  known : Option.Rel (t.Known σ.scene.scope (σ.numbering.next before)) r last
  knows : ∃ names, σ.Knows t before names T

/-- A function that statements declare: what its name stands for, and what the functions inside it are
called by. -/
structure Stage.Declares (σ : Stage) (t : Tandem) (next : ValueId) (f : Value × Labels)
    (x : ValueId × Numbering) : Prop where
  known : t.Known σ.scene.scope next f.1 x.1
  labels : f.2 = x.2.labels

theorem Node.evaluateStatements_function (p : Scene) (f : Value) (labels : Labels)
    (functions : List (Value × Labels)) (span : Span) (name : String) (params : List String)
    (body : Node) (items : List Node) (names : Bindings) :
    Node.evaluateStatements answer p ((f, labels) :: functions)
      (.function span name params body :: items) names = (do
        Evaluation.declare p.scope ⟨params, body, labels, names, p.environment⟩
        let last ← Node.evaluateStatements answer p functions items names
        return some (last.getD f)) := rfl

theorem Node.evaluateStatements_value (p : Scene) (functions : List (Value × Labels)) {item : Node}
    (hi : item.isFunction = false) (items : List Node) (names : Bindings) :
    Node.evaluateStatements answer p functions (item :: items) names = (do
      let (v, names) ← Node.evaluate answer p item names
      let last ← Node.evaluateStatements answer p functions items names
      return some (last.getD v)) := by
  cases item with
  | function => cases hi
  | _ => cases functions <;> rfl

/-- The value of statements, of which the first one is given. -/
theorem Stage.Ends.getD {t : Tandem} {before : List Given} {last : Option ValueId} {T : Tables}
    {r : Option Value} {rest : List Nat} (hx : σ.Ends h h' before last T t r rest) {v : Value}
    {id : ValueId} (hk : t.Known σ.scene.scope (σ.numbering.next before) v id) :
    σ.Ends h h' before (some (last.getD id)) T t (some (r.getD v)) rest := by
  obtain ⟨hat, hknown, hnames⟩ := hx
  refine ⟨hat, ?_, hnames⟩
  cases hknown with
  | none => exact .some hk
  | some hx => exact .some hx

/-- Statements are evaluated along with the visits of their values. -/
theorem Node.follows_statements (ha : Answers h h' answer answer') (items : List Node)
    {hoisted : List ValueId} {T T' : Tables} {gs : List Given} {last : Option ValueId}
    (hr : RendersBody σ.scene.environment.idOf? σ.image.Holds hoisted items T gs last T')
    {t : Tandem} {before after : List Given} {rest : List Nat} {names : Bindings}
    {functions : List (Value × Labels)} (hn : σ.numbering.given = before ++ gs ++ after)
    (hat : σ.At h h' t before rest) (hk : σ.Knows t before names T)
    (hf : List.Forall₂ (σ.Declares t (σ.numbering.next before)) functions (Given.functions gs)) :
    σ.Visits h h' answer' t rest (σ.Ends h h' (before ++ gs) last T')
      (evaluateStatements answer σ.scene functions items names t.world) := by
  induction items generalizing hoisted T gs last t before rest names functions with
  | nil =>
    cases hr
    rw [List.append_nil]
    exact .pure ⟨hat, .none, names, hk⟩
  | cons item items ih =>
    cases hr with
    | @function span name params body _ id _ _ _ n gs last hrf hr =>
      obtain ⟨⟨f, labels⟩, functions, ⟨hx, rfl⟩, hfs, rfl⟩ := List.forall₂_cons_right_iff.mp hf
      rw [evaluateStatements_function]
      have hn₁ : σ.numbering.given = before ++ .function id n :: (gs ++ after) := by simpa using hn
      have hn₂ : σ.numbering.given = before ++ [.function id n] ++ gs ++ after := by simpa using hn
      have hn₃ : σ.numbering.given = before ++ [.function id n] ++ (gs ++ after) := by
        simpa using hn
      refine (hat.declare hn₁ hrf hk.names).bind fun t₁ _ rest₁ hle₁ hat₁ => ?_
      have hf₁ := hfs.imp fun _ _ hx =>
        (⟨hat.known hle₁ hn₃ hx.known, hx.labels⟩ : σ.Declares t₁ _ _ _)
      refine (ih hr hn₂ hat₁ (hk.later hat hle₁ hn₃) hf₁).bind fun t₂ r rest₂ hle₂ hends => ?_
      rw [List.append_assoc] at hends
      refine .pure (hends.getD ?_)
      have := hat₁.known hle₂ hn₂ (hat.known hle₁ hn₃ hx)
      rwa [List.append_assoc] at this
    | @value _ _ _ _ T₁ _ gs hs id last hi hri hr =>
      rw [evaluateStatements_value σ.scene functions hi]
      rw [functions_append, hri.functions_eq_nil, List.nil_append] at hf
      have hn₁ : σ.numbering.given = before ++ gs ++ (hs ++ after) := by simpa using hn
      have hn₂ : σ.numbering.given = before ++ gs ++ hs ++ after := by simpa using hn
      refine (Node.follows ha item hri hn₁ hat hk).bind fun t₁ r rest₁ hle₁ hgives => ?_
      have hf₁ := hf.imp fun _ _ hx =>
        (⟨hat.known hle₁ hn₁ hx.known, hx.labels⟩ : σ.Declares t₁ _ _ _)
      refine (ih hr hn₂ hgives.here hgives.knows hf₁).bind fun t₂ r₂ rest₂ hle₂ hends => ?_
      have hknown := hgives.here.known hle₂ hn₂ hgives.known
      rw [List.append_assoc] at hends hknown
      exact .pure (hends.getD hknown)

/-! ## The value of a level -/

theorem Graph.conclude_eq_find {g : Graph} {scope : Nat} {id : ValueId} {m : Machine}
    (hg : ∀ i < g.blocks.length, i ∈ Peel.order g.blocks.length g.dependents)
    (hh : m.holder? id scope = some scope) : g.conclude scope id m = Run.find scope id m := by
  have hc : g.summary.isComplete = true := (Peel.Summary.isComplete_iff _ _).mpr hg
  rw [conclude, if_pos hc, Run.bind_apply, Run.read_apply, Run.find_apply, hh]
  dsimp only
  cases m.slot? scope id with
  | none => rfl
  | some s => cases s <;> rfl

namespace Stage.At

variable {t : Tandem} {rest : List Nat}

/-- When everything has been visited, all that was declared and written in a level can be read. -/
theorem readable_result {i : Nat} {b : Block} (hat : σ.At h h' t σ.numbering.given [])
    (hb : σ.graph.blocks[i]? = some b) :
    0 ≤ b.id ∧ t.machine.holder? b.id σ.scene.scope = some σ.scene.scope ∧
      t.Readable σ.scene.scope b.id := by
  obtain ⟨a, hact, haf⟩ := hat.activation
  obtain ⟨done, horder, hwritten⟩ := hat.visited
  rw [List.append_nil] at horder
  subst horder
  have hw := haf.built.level
  have hi := (List.getElem?_eq_some_iff.mp hb).1
  have all (k : Nat) (hk : k < σ.graph.blocks.length) := (hwritten k hk).mpr (hat.laid.mem_order hk)
  have hfirst : σ.graph.first ≤ b.id := by
    rw [haf.id_eq hb, Int32.le_iff_toInt_le,
      hat.laid.room.toInt_slot (by unfold Level.slotCount; omega)]
    omega
  have hholder := Machine.holder?_here hact (haf.first ▸ hfirst)
  have h0 : 0 ≤ b.id := by
    have := (hat.laid.room _ σ.graph.self_mem_levels).1
    rw [Int32.le_iff_toInt_le] at hfirst ⊢
    exact Int.le_trans this hfirst
  refine ⟨h0, hholder, fun _ => ?_, fun {holder j g body outer} _ hh hl hf l hl' => ?_⟩
  · obtain ⟨s, hs⟩ := Option.isSome_iff_exists.mp (all i hi)
    rw [Machine.slot?_eq_of_activation hact] at hs
    refine Machine.Fine.of_slot? hact haf hfirst (haf.id_eq hb ▸ hs) ?_
    rcases Machine.Fine.block_cases hw hi with ⟨hif, id, body, hb'⟩ | ⟨-, id, is, hb'⟩
    · rw [haf.function hb' hs]
      refine Machine.Fine.function_fine hat.lt haf hb' fun k hk => all k ?_
      exact Nat.lt_of_lt_of_le (hk.isFunction hif) σ.graph.functionCount_le
    · exact haf.value hb' hs
  · rw [hholder] at hh
    cases hh
    obtain ⟨rfl, rfl⟩ := List.cons_eq_cons.mp (haf.levels.symm.trans hl)
    refine hat.isSome_declared ?_
    rw [← hat.laid.functionCount_eq_functions]
    exact hl'.isFunction ((hw.isFunction_iff hf).mp rfl)

/-- The value of a level of which all statements have been evaluated. -/
theorem result (hat : σ.At h h' t σ.numbering.given rest) {v : Value}
    (hk : t.Known σ.scene.scope (σ.numbering.next σ.numbering.given) v σ.numbering.result) :
    Together h h' σ.scene.scope t (fun t' v v' => Value.Related t'.link v v')
      ((pure v : Evaluation Value) t.world) ((rest.forM (σ.graph.runBlock answer' σ.frame) >>= fun _ =>
        σ.graph.conclude σ.scene.scope σ.numbering.result) t.machine) := by
  -- only functions are left
  have hvalues := hat.values
  rw [hat.laid.blocks_length, hat.laid.functionCount_eq, Nat.sub_self, List.range'_zero,
    List.filter_eq_nil_iff] at hvalues
  obtain ⟨m, hrun, hle, hat'⟩ := (show σ.At h h' t σ.numbering.given (rest ++ []) by
    rwa [List.append_nil]).visit_functions answer' fun i hi => by
      rw [hat.laid.functionCount_eq]
      simpa using hvalues i hi
  obtain ⟨-, -, -, -, -, -, -, -, -, hresult⟩ := hat.laid.agrees
  obtain ⟨b, hb, hid⟩ := Option.map_eq_some_iff.mp hresult
  rw [List.getLast?_eq_getElem?] at hb
  obtain ⟨h0, hholder, hread⟩ := hat'.readable_result hb
  rw [hid] at h0 hholder hread
  rw [Run.bind_ok hrun, Graph.conclude_eq_find (fun _ => hat.laid.mem_order) hholder]
  have hmeans := hle.means hat.tied.fine hat.lt hk.means
  have hout := hat'.tied.read (f := σ.frame) hmeans (by
    show (t.sites σ.scene.scope).unit = σ.unit
    rw [hat.site]) hread
  rw [σ.frame.find_of_nonneg h0] at hout
  exact .later hle (Nat.le_of_lt hat'.lt) hout

end Stage.At

end Dataflow
