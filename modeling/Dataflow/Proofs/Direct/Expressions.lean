import Dataflow.Proofs.Direct.Stage

/-!
# Expressions and the visits of their values

The evaluation of an expression goes along with the visits of the values that it was compiled to.

* `Stage.Knows`: what is known at a point of a scope on both sides;
* `Tandem.Answers.call`, `Tandem.Answers.field`: what instructions read and do;
* `Concludes.visits`: the value of items;
* `Node.Follows`: an expression goes along with the visits of its values;
* **`Node.follows`**, `Node.followsAll`: expressions.
-/

namespace Dataflow

open Run Given

theorem Literal.value?_constant_eq (l : Literal) : l.constant.value? = some l.value := by
  cases l with
  | int n => exact Constant.value?_ofInt n
  | float x => exact Constant.value?_ofFloat x
  | str s => exact Constant.value?_ofText s

theorem rel_getLast? {α β : Type} {R : α → β → Prop} {as : List α} {bs : List β}
    (h : List.Forall₂ R as bs) : Option.Rel R as.getLast? bs.getLast? := by
  have hr := List.rel_reverse h
  rw [List.getLast?_eq_head?_reverse, List.getLast?_eq_head?_reverse]
  generalize as.reverse = as' at hr
  generalize bs.reverse = bs' at hr
  cases hr with
  | nil => exact .none
  | cons h _ => exact .some h

/-! ## What is known -/

/-- The names and literals of a point in a scope are known on both sides. -/
structure Stage.Knows (σ : Stage) (t : Tandem) (before : List Given) (names : Bindings)
    (T : Tables) : Prop where
  names : List.Forall₂ (t.Names σ.scene.scope (σ.numbering.next before)) names T.names
  literals : ∀ {c id}, T.literals.lookup c = some id → ∃ k v, σ.image.Holds c k ∧
    k.value? = some v ∧
    t.Known σ.scene.scope (σ.numbering.next before) v id
  last : ∀ {v}, T.last = some v → σ.graph.first ≤ v

/-- Both sides have come behind an expression: what it gives is known, and so are the names. -/
structure Stage.Gives (σ : Stage) (h : SourceHost) (h' : Host) (before : List Given) (id : ValueId)
    (T : Tables) (t : Tandem) (r : Value × Bindings) (rest : List Nat) : Prop where
  here : σ.At h h' t before rest
  known : t.Known σ.scene.scope (σ.numbering.next before) r.1 id
  knows : σ.Knows t before r.2 T

namespace Stage

open Tandem

variable {σ : Stage} {t t' : Tandem} {h : SourceHost} {h' : Host} {before gs after : List Given}
  {rest : List Nat} {names : Bindings} {T : Tables} {v : Value} {id : ValueId}

section Later

variable {k : Nat} (ha : σ.At h h' t before rest) (hle : Le k t t')
  (hn : σ.numbering.given = before ++ gs ++ after)
include ha hle hn

theorem At.known (hx : t.Known σ.scene.scope (σ.numbering.next before) v id) :
    t'.Known σ.scene.scope (σ.numbering.next (before ++ gs)) v id :=
  hle.known ha.tied.fine ha.lt (ha.laid.next_mono hn) hx

theorem Knows.later (hk : σ.Knows t before names T) : σ.Knows t' (before ++ gs) names T := by
  refine ⟨hk.names.imp fun _ _ hx => hle.names ha.tied.fine ha.lt (ha.laid.next_mono hn) hx,
    fun hc => ?_, hk.last⟩
  obtain ⟨k, v, hhold, hv, hx⟩ := hk.literals hc
  exact ⟨k, v, hhold, hv, ha.known hle hn hx⟩

end Later

namespace Knows

/-- Names that are bound on one side are bound on the other. -/
theorem lookup {next : ValueId} {scope : Nat} {names : Bindings} {known : List (String × ValueId)}
    (h : List.Forall₂ (t.Names scope next) names known) (name : String) :
    Option.Rel (t.Known scope next) (names.lookup name) (known.lookup name) := by
  induction h with
  | nil => exact .none
  | @cons b x names known hx _ ih =>
    obtain ⟨n, v⟩ := b
    obtain ⟨n', id⟩ := x
    obtain rfl : n = n' := hx.name
    rw [List.lookup_cons, List.lookup_cons]
    cases name == n with
    | true => exact .some hx.known
    | false => exact ih

theorem names_bind {next : ValueId} {scope : Nat} {names : Bindings}
    {known : List (String × ValueId)} (h : List.Forall₂ (t.Names scope next) names known)
    (bound : List String) (hx : t.Known scope next v id) :
    List.Forall₂ (t.Names scope next) (names.bind bound v)
      (bound.foldl (fun known name => (name, id) :: known) known) := by
  induction bound generalizing names known with
  | nil => exact h
  | cons name bound ih => exact ih (.cons ⟨rfl, hx⟩ h)

theorem bind (hk : σ.Knows t before names T) (bound : List String)
    (hx : t.Known σ.scene.scope (σ.numbering.next before) v id) :
    σ.Knows t before (names.bind bound v) (T.bind bound id) :=
  ⟨names_bind hk.names bound hx, hk.literals, hk.last⟩

theorem give (hk : σ.Knows t before names T) (hid : σ.graph.first ≤ id) :
    σ.Knows t before names (T.give id) := by
  refine ⟨hk.names, hk.literals, fun hv => ?_⟩
  cases hv
  exact hid

end Knows

end Stage

/-! ## Instructions -/

namespace Tandem

open Stage

variable {t t' : Tandem} {h : SourceHost} {h' : Host} {answer : Request → Evaluation Value}
  {answer' : Request → Run Value} {f : Frame}

/-- A number that can be read, and the value that it stands for. -/
structure Operand (t : Tandem) (f : Frame) (v : Value) (id : ValueId) : Prop where
  means : t.Means f.scope v id
  readable : t.Readable f.scope id

/-- An activation in which instructions run. -/
structure Inside (t : Tandem) (f : Frame) : Prop where
  lt : f.scope < t.machine.activations.size
  unit : (t.sites f.scope).unit = f.unit

theorem Inside.later {k : Nat} (hf : t.Inside f) (hle : Le k t t') : t'.Inside f :=
  ⟨Nat.lt_of_lt_of_le hf.lt hle.grows.size_le, by rw [hle.grows.sites hf.lt, hf.unit]⟩

theorem Operand.later {k : Nat} {v : Value} {id : ValueId} (ho : t.Operand f v id)
    (ht : t.Tied h h') (hf : t.Inside f) (hle : Le k t t') : t'.Operand f v id :=
  ⟨hle.means ht.fine hf.lt ho.means, ho.readable.later ht hf.lt hle⟩

theorem Operand.read {v : Value} {id : ValueId} (ho : t.Operand f v id) (ht : t.Tied h h')
    (hf : t.Inside f) :
    Together h h' t.machine.activations.size t (fun t' v v' => Value.Related t'.link v v')
      ((pure v : Evaluation Value) t.world) (f.find id t.machine) :=
  ht.read ho.means hf.unit ho.readable

/-- Arguments are read from left to right, then the callee is, and then it is called. -/
theorem Answers.call (ha : Answers h h' answer answer') (ht : t.Tied h h') (hf : t.Inside f)
    {callee : Value} {c : ValueId} (hc : t.Operand f callee c) (id : ValueId) {args : List Value}
    {ids : List ValueId} (hs : List.Forall₂ (t.Operand f) args ids) {read read' : List Value}
    (hread : Value.AllRelated t.link read read') :
    Together h h' t.machine.activations.size t (fun t' v v' => Value.Related t'.link v v')
      ((Script.apply callee (read.reverse ++ args)).evaluate answer f.depth t.world)
      (runSteps answer' f id read' (ids.map .argument ++ [.call c]) t.machine) := by
  induction args generalizing t ids read read' with
  | nil =>
    cases hs
    rw [List.append_nil]
    refine (hc.read ht hf).after fun t' v' hle ht' hv => ?_
    refine .later (.refl _ _) hle.grows.size_le (ha.script f.depth ht' fun {L} hL => ?_)
    exact (hv.mono hL).apply
      (Value.allRelated_mono (hle.link.trans hL) (List.rel_reverse hread))
  | cons v args ih =>
    cases hs with
    | cons ho hs =>
      refine (ho.read ht hf).after fun t' v' hle ht' hv => ?_
      have hnext := ih ht' (hf.later hle) (hc.later ht hf hle)
        (hs.imp fun _ _ hx => hx.later ht hf hle) (.cons hv (Value.allRelated_mono hle.link hread))
      rw [List.reverse_cons, List.append_assoc, List.singleton_append] at hnext
      exact .later (.refl _ _) hle.grows.size_le hnext

/-- A value is read and a field of it is taken. -/
theorem Answers.field (ha : Answers h h' answer answer') (ht : t.Tied h h') (hf : t.Inside f)
    {value : Value} {v : ValueId} (hv : t.Operand f value v) {c : ConstantId} {name : String}
    (hc : (t.machine.image f.unit).Holds c (.ofText name)) (id : ValueId) (form : Form) :
    Together h h' t.machine.activations.size t (fun t' v v' => Value.Related t'.link v v')
      ((value.select name form).evaluate answer f.depth t.world)
      (runSteps answer' f id [] [.field v c form] t.machine) := by
  have hunit : f.unit < t.machine.images.size := hf.unit ▸ ht.fine.unit hf.lt
  refine (hv.read ht hf).after fun t' value' hle ht' hvalue => ?_
  have hname : f.fieldName c t'.machine = .ok name t'.machine := by
    have hconst : f.constant c t'.machine = .ok (.str name) t'.machine := by
      rw [← hle.image hunit] at hc
      rw [f.constant_apply]
      rw [Machine.image, Image.Holds] at hc
      rw [hc]
      simp only [Constant.value?_ofText]
    exact (Run.bind_ok hconst).trans rfl
  rw [Run.bind_ok hname]
  exact .later (.refl _ _) hle.grows.size_le
    (ha.script f.depth ht' fun {L} hL => (hvalue.mono hL).select name form)

end Tandem

/-! ## Values -/

open Tandem Stage

section Values

variable {σ : Stage} {h : SourceHost} {h' : Host} {answer : Request → Evaluation Value}
  {answer' : Request → Run Value}

namespace Stage.At

variable {t : Tandem} {before after : List Given} {rest : List Nat} {names : Bindings} {T : Tables}

/-- The next value, of operands that are known. -/
theorem visit_operands (answer' : Request → Run Value) {id : ValueId} {is : List Instruction}
    (hat : σ.At h h' t before rest) (hn : σ.numbering.given = before ++ .value id is :: after)
    {x : Evaluation Value}
    (hx : ∀ t', t'.Tied h h' → t'.Inside σ.frame → t'.machine.image σ.unit = σ.image →
      (∀ {v a}, t.Known σ.scene.scope (σ.numbering.next before) v a →
        a ∈ (Block.steps id is).needs → t'.Operand σ.frame v a) →
      Together h h' t'.machine.activations.size t' (fun t' v v' => Value.Related t'.link v v')
        (x t'.world) (runSteps answer' σ.frame id [] is t'.machine)) :
    σ.Visits h h' answer' t rest (fun t' v rest' => σ.At h h' t' (before ++ [.value id is]) rest' ∧
      t'.Known σ.scene.scope (σ.numbering.next (before ++ [.value id is])) v id ∧
      ∃ calls w, x t.world = (calls, .ok v w)) (x t.world) := by
  refine hat.visit_value hn fun t' hle ht hw hsite hread => ?_
  have hunit : σ.unit < t.machine.images.size := by
    have := hat.tied.fine.unit hat.lt
    rwa [hat.site] at this
  refine hx t' ht ⟨Nat.lt_of_lt_of_le hat.lt hle.grows.size_le, ?_⟩ ?_ fun hk hneed =>
    ⟨hle.means hat.tied.fine hat.lt hk.means, hread _ hneed⟩
  · show (t'.sites σ.scene.scope).unit = σ.unit
    rw [hsite]
  · rw [hle.image hunit, hat.image]

/-- What is built in is known everywhere. -/
theorem known_builtin {name : String} {id : ValueId} (hat : σ.At h h' t before rest)
    (hn : σ.numbering.given = before ++ after) (hid : σ.scene.environment.idOf? name = some id) :
    ∃ v, σ.scene.environment.entries.lookup name = some v ∧
      t.Known σ.scene.scope (σ.numbering.next before) v id := by
  obtain ⟨v, v', hv, hneg, hv', hrel⟩ := hat.environment.get? hat.few hid
  refine ⟨v, hv, .builtin hneg ?_ hrel, Int32.lt_of_lt_of_le hneg ?_⟩
  · rw [hat.site, hat.image]
    exact hv'
  · rw [Int32.le_iff_toInt_le, hat.laid.toInt_next hn]
    exact Int.add_nonneg (hat.laid.room _ σ.graph.self_mem_levels).1 (Int.natCast_nonneg _)

end Stage.At

/-- A copy of a value. -/
theorem Stage.At.visit_copy {t : Tandem} {before after : List Given} {rest : List Nat}
    {names : Bindings} {T : Tables} {value : Value} {id v : ValueId} (hat : σ.At h h' t before rest)
    (hn : σ.numbering.given = before ++ [.value id [.copy v]] ++ after)
    (hk : σ.Knows t before names T)
    (hx : t.Known σ.scene.scope (σ.numbering.next before) value v) :
    σ.Visits h h' answer' t rest
      (fun t' r => σ.Gives h h' (before ++ [.value id [.copy v]]) id (T.give id) t' (r, names))
      ((pure value : Evaluation Value) t.world) := by
  have hn' : σ.numbering.given = before ++ .value id [.copy v] :: after := by simpa using hn
  refine (hat.visit_operands answer' hn' (x := pure value) fun t' ht hin _ hop =>
    (hop hx (by simp [Block.needs, Instruction.operand?])).read ht hin).mono
    fun t' r rest' hle ⟨hat', hknown, _⟩ => ⟨hat', hknown, ?_⟩
  exact (hk.later hat hle hn).give (hat.laid.first_le_value hn')

/-- The value of items goes along with the visit of its copy, if there is one. -/
theorem Concludes.visits {t : Tandem} {before gs after : List Given} {rest : List Nat}
    {names : Bindings} {T T' : Tables} {value : Option Value} {last : Option ValueId} {id : ValueId}
    (hc : Concludes σ.scene.environment.idOf? T last gs id T')
    (hn : σ.numbering.given = before ++ gs ++ after) (hat : σ.At h h' t before rest)
    (hk : σ.Knows t before names T)
    (hlast : Option.Rel (t.Known σ.scene.scope (σ.numbering.next before)) value last) :
    σ.Visits h h' answer' t rest (fun t' r => σ.Gives h h' (before ++ gs) id T' t' (r, names))
      (σ.scene.conclude value t.world) := by
  cases hc with
  | unit hu id =>
    cases hlast
    obtain ⟨v, hv, hx⟩ := hat.known_builtin (by rw [hn, List.append_assoc]) hu
    have hresolve : σ.scene.resolve [] "unit" = pure v := by
      rw [Scene.resolve, List.lookup_nil, hv]
    rw [Scene.conclude, hresolve]
    exact hat.visit_copy hn hk hx
  | copy v id =>
    cases hlast with
    | some hx => exact hat.visit_copy hn hk hx
  | same hv =>
    cases hlast with
    | some hx =>
      rw [List.append_nil]
      exact .pure ⟨hat, hx, hk⟩

/-- The evaluation of an expression goes along with the visits of its values. -/
def Stage.Follows (σ : Stage) (h : SourceHost) (h' : Host) (answer : Request → Evaluation Value)
    (answer' : Request → Run Value) (node : Node) : Prop :=
  ∀ {T T' : Tables} {gs : List Given} {id : ValueId},
    node.Renders σ.scene.environment.idOf? σ.image.Holds T gs id T' →
    ∀ {t : Tandem} {before after : List Given} {rest : List Nat} {names : Bindings},
      σ.numbering.given = before ++ gs ++ after → σ.At h h' t before rest →
      σ.Knows t before names T →
      σ.Visits h h' answer' t rest (σ.Gives h h' (before ++ gs) id T')
        (node.evaluate answer σ.scene names t.world)

/-- The evaluation of expressions, one after the other, goes along with the visits of their values. -/
def Stage.FollowsAll (σ : Stage) (h : SourceHost) (h' : Host) (answer : Request → Evaluation Value)
    (answer' : Request → Run Value) (nodes : List Node) : Prop :=
  ∀ {T T' : Tables} {gs : List Given} {ids : List ValueId},
    Node.RendersAll σ.scene.environment.idOf? σ.image.Holds nodes T gs ids T' →
    ∀ {t : Tandem} {before after : List Given} {rest : List Nat} {names : Bindings},
      σ.numbering.given = before ++ gs ++ after → σ.At h h' t before rest →
      σ.Knows t before names T →
      σ.Visits h h' answer' t rest (fun t' r rest' => σ.At h h' t' (before ++ gs) rest' ∧
        List.Forall₂ (t'.Known σ.scene.scope (σ.numbering.next (before ++ gs))) r.1 ids ∧
        σ.Knows t' (before ++ gs) r.2 T') (Node.evaluateAll answer σ.scene nodes names t.world)

namespace Stage.Follows

theorem literal (span : Span) (l : Literal) : σ.Follows h h' answer answer' (.literal span l) := by
  intro T T' gs id hr t before after rest names hn hat hk
  rw [Node.evaluate]
  cases hr with
  | @known _ _ _ c _ hc hl =>
    obtain ⟨k, v, hhold, hv, hx⟩ := hk.literals hl
    -- the constant of a literal determines its value
    obtain rfl : l.constant = k := Option.some.inj (hc.symm.trans hhold)
    obtain rfl : l.value = v := Option.some.inj ((Literal.value?_constant_eq l).symm.trans hv)
    rw [List.append_nil]
    exact .pure ⟨hat, hx, hk⟩
  | @literal _ _ _ c hc id =>
    have hn' : σ.numbering.given = before ++ .value id [.constant c] :: after := by simpa using hn
    have hx := hat.visit_operands answer' hn' (x := pure l.value)
      fun t' ht hin himage _ => by
        have hrun : runSteps answer' σ.frame id [] [.constant c] t'.machine =
            .ok l.value t'.machine := by
          show σ.frame.constant c t'.machine = _
          rw [Frame.constant_apply, show t'.machine.images.getD σ.frame.unit default = σ.image
            from himage, hc]
          simp only [Literal.value?_constant_eq]
        rw [hrun]
        exact .ok t' (.refl _ t') ht (constant_fine _ (Literal.value?_constant_eq l))
    refine hx.bind (f := fun v => pure (v, names))
      fun t' v rest' hle ⟨hat', hknown, _, w, hv⟩ => .pure ⟨hat', hknown, ?_⟩
    cases hv
    have hk' := hk.later hat hle hn
    refine ⟨hk'.names, fun {c' id'} hl => ?_, fun hl => ?_⟩
    · rw [List.lookup_cons] at hl
      split at hl
      case h_1 he =>
        obtain rfl := eq_of_beq he
        cases hl
        exact ⟨_, _, hc, Literal.value?_constant_eq l, hknown⟩
      case h_2 => exact hk'.literals hl
    · cases hl
      exact hat.laid.first_le_value hn'

theorem ident (span : Span) (name : String) : σ.Follows h h' answer answer' (.ident span name) := by
  intro T T' gs id hr t before after rest names hn hat hk
  rw [Node.evaluate]
  have hlookup := Knows.lookup hk.names name
  rw [Scene.resolve]
  cases hr with
  | bound hl =>
    rw [hl] at hlookup
    rw [List.append_nil]
    generalize names.lookup name = v at hlookup
    cases hlookup with
    | some hx => exact .pure ⟨hat, hx, hk⟩
  | builtin hl hb =>
    rw [hl] at hlookup
    generalize names.lookup name = v at hlookup
    cases hlookup
    obtain ⟨v, hv, hx⟩ := hat.known_builtin (by rw [hn, List.append_assoc]) hb
    rw [hv, List.append_nil]
    exact .pure ⟨hat, hx, hk⟩

theorem assign {value : Node} (hv : σ.Follows h h' answer answer' value) (span : Span)
    (bound : List String) : σ.Follows h h' answer answer' (.assign span bound value) := by
  intro T T' gs id hr t before after rest names hn hat hk
  rw [Node.evaluate]
  cases hr with
  | assign hr =>
    refine (hv hr hn hat hk).bind fun t' r rest' hle ⟨hat', hx, hk'⟩ => ?_
    exact .pure ⟨hat', hx, hk'.bind bound hx⟩

theorem call {callee : Node} {args : List Node} (ha : Answers h h' answer answer')
    (hc : σ.Follows h h' answer answer' callee) (hargs : σ.FollowsAll h h' answer answer' args)
    (span : Span) : σ.Follows h h' answer answer' (.call span callee args) := by
  intro T T' gs id hr t before after rest names hn hat hk
  rw [Node.evaluate]
  cases hr with
  | @call _ _ _ _ T₁ T₂ gs hs c ids hrc hra _ =>
    have hn₁ : σ.numbering.given = before ++ gs ++ (hs ++ [.value id (ids.map .argument ++ [.call c])]
      ++ after) := by simpa using hn
    refine (hc hrc hn₁ hat hk).bind fun t₁ r rest₁ hle₁ ⟨hat₁, hx, hk₁⟩ => ?_
    have hn₂ : σ.numbering.given = before ++ gs ++ hs ++
      ([.value id (ids.map .argument ++ [.call c])] ++ after) := by simpa using hn
    refine (hargs hra hn₂ hat₁ hk₁).bind fun t₂ rs rest₂ hle₂ ⟨hat₂, hxs, hk₂⟩ => ?_
    have hcallee := hat₁.known hle₂ hn₂ hx
    have hn₃ : σ.numbering.given = before ++ gs ++ hs ++
      .value id (ids.map .argument ++ [.call c]) :: after := by simpa using hn
    have hvalue := hat₂.visit_operands answer' hn₃
      (x := (Script.apply r.1 rs.1).evaluate answer σ.scene.depth) fun t' ht hin _ hop => by
        have needs : (Block.steps id (ids.map .argument ++ [.call c])).needs = ids ++ [c] := by
          simp [Block.needs, Instruction.operand?, Function.comp_def]
        refine ha.call ht hin (hop hcallee (by simp [needs])) id (List.forall₂_iff_zip.mpr
          ⟨hxs.length_eq, fun {v a} hmem => ?_⟩) .nil
        exact hop ((List.forall₂_iff_zip.mp hxs).2 hmem) (by simp [needs, (List.of_mem_zip hmem).2])
    have hn₄ : σ.numbering.given = before ++ gs ++ hs ++
      [.value id (ids.map .argument ++ [.call c])] ++ after := by simpa using hn
    rw [← List.append_assoc, ← List.append_assoc]
    exact hvalue.bind fun t₃ v rest₃ hle₃ hv => .pure ⟨hv.1, hv.2.1,
      (hk₂.later hat₂ hle₃ hn₄).give (hat₂.laid.first_le_value hn₃)⟩

theorem select {node : Node} (ha : Answers h h' answer answer')
    (hv : σ.Follows h h' answer answer' node) (span : Span) (field : String) (form : Form) :
    σ.Follows h h' answer answer' (.select span node field form) := by
  intro T T' gs id hr t before after rest names hn hat hk
  rw [Node.evaluate]
  cases hr with
  | @select _ _ _ _ _ T₁ gs v c hrv hc _ =>
    have hn₁ : σ.numbering.given = before ++ gs ++ ([.value id [.field v c form]] ++ after) := by
      simpa using hn
    refine (hv hrv hn₁ hat hk).bind fun t₁ r rest₁ hle₁ ⟨hat₁, hx, hk₁⟩ => ?_
    have hn₂ : σ.numbering.given = before ++ gs ++ .value id [.field v c form] :: after := by
      simpa using hn
    have hvalue := hat₁.visit_operands answer' hn₂
      (x := (r.1.select field form).evaluate answer σ.scene.depth) fun t' ht hin himage hop =>
        ha.field ht hin (hop hx (by simp [Block.needs, Instruction.operand?])) (himage ▸ hc) id form
    have hn₃ : σ.numbering.given = before ++ gs ++ [.value id [.field v c form]] ++ after := by
      simpa using hn
    rw [← List.append_assoc]
    exact hvalue.bind fun t₂ v rest₂ hle₂ hv => .pure ⟨hv.1, hv.2.1,
      (hk₁.later hat₁ hle₂ hn₃).give (hat₁.laid.first_le_value hn₂)⟩

theorem list {items : List Node} (hi : σ.FollowsAll h h' answer answer' items) (span : Span) :
    σ.Follows h h' answer answer' (.list span items) := by
  intro T T' gs id hr t before after rest names hn hat hk
  rw [Node.evaluate]
  cases hr with
  | @list _ _ _ T₁ _ gs hs ids _ hrs hc =>
    have hn₁ : σ.numbering.given = before ++ gs ++ (hs ++ after) := by simpa using hn
    refine (hi hrs hn₁ hat hk).bind fun t₁ rs rest₁ hle₁ ⟨hat₁, hxs, hk₁⟩ => ?_
    have hn₂ : σ.numbering.given = before ++ gs ++ hs ++ after := by simpa using hn
    refine (hc.visits hn₂ hat₁ hk₁ (rel_getLast? hxs)).bind
      fun t₂ r rest₂ hle₂ ⟨hat₂, hx, hk₂⟩ => ?_
    rw [← List.append_assoc]
    exact .pure ⟨hat₂, hx, hk₂⟩

/-- Functions are no expressions. -/
theorem function (span : Span) (name : String) (params : List String) (body : Node) :
    σ.Follows h h' answer answer' (.function span name params body) := by
  intro T T' gs id hr
  cases hr

end Stage.Follows

namespace Stage.FollowsAll

theorem nil : σ.FollowsAll h h' answer answer' [] := by
  intro T T' gs ids hr t before after rest names hn hat hk
  rw [Node.evaluateAll]
  cases hr
  rw [List.append_nil]
  exact .pure ⟨hat, .nil, hk⟩

theorem cons {item : Node} {items : List Node} (hi : σ.Follows h h' answer answer' item)
    (his : σ.FollowsAll h h' answer answer' items) :
    σ.FollowsAll h h' answer answer' (item :: items) := by
  intro T T' gs ids hr t before after rest names hn hat hk
  rw [Node.evaluateAll]
  cases hr with
  | @cons _ _ _ T₁ _ gs hs id ids hr hrs =>
    have hn₁ : σ.numbering.given = before ++ gs ++ (hs ++ after) := by simpa using hn
    refine (hi hr hn₁ hat hk).bind fun t₁ r rest₁ hle₁ ⟨hat₁, hx, hk₁⟩ => ?_
    have hn₂ : σ.numbering.given = before ++ gs ++ hs ++ after := by simpa using hn
    refine (his hrs hn₂ hat₁ hk₁).bind fun t₂ rs rest₂ hle₂ ⟨hat₂, hxs, hk₂⟩ => ?_
    rw [← List.append_assoc]
    exact .pure ⟨hat₂, .cons (hat₁.known hle₂ hn₂ hx) hxs, hk₂⟩

end Stage.FollowsAll

mutual

/-- **Expressions are evaluated along with the visits of their values.** -/
theorem Node.follows (ha : Answers h h' answer answer') :
    (node : Node) → σ.Follows h h' answer answer' node
  | .literal span l => Stage.Follows.literal span l
  | .ident span name => Stage.Follows.ident span name
  | .assign span bound node => Stage.Follows.assign (Node.follows ha node) span bound
  | .call span callee args =>
    Stage.Follows.call ha (Node.follows ha callee) (Node.followsAll ha args) span
  | .select span node field form => Stage.Follows.select ha (Node.follows ha node) span field form
  | .list span items => Stage.Follows.list (Node.followsAll ha items) span
  | .function span name params body => Stage.Follows.function span name params body

/-- Expressions one after the other. -/
theorem Node.followsAll (ha : Answers h h' answer answer') :
    (nodes : List Node) → σ.FollowsAll h h' answer answer' nodes
  | [] => Stage.FollowsAll.nil
  | item :: items => Stage.FollowsAll.cons (Node.follows ha item) (Node.followsAll ha items)

end

end Values

end Dataflow
