import Dataflow.Proofs.Run.Equations

/-!
# Values that stand for each other

Two runs may know the same function under different numbers. A `Link` says which identities and
which closures of the one stand for which of the other, and values are related if they differ in
nothing else. Built-in functions cannot tell related values apart, with one exception: one closure may
stand for several, and these differ from each other although it equals itself.

* `Link`, `Link.Exact`: what stands for what, and that no closure stands for two;
* `Value.Related`, `Function.Related`: values and functions that stand for each other;
* `Value.Apart`: values that do not have the same closure at the same place;
* `Script.Related`: scripts that go on in the same way when they are answered in the same way;
* **`Method.script_related`**, **`Builtin.script_related`**: built-in functions on related values.
-/

namespace Dataflow

/-- What stands for what in two runs. -/
structure Link where
  /-- The identities of methods and libraries. -/
  identity : Nat → Nat → Prop
  /-- The identities of closures. -/
  function : Nat → Nat → Prop
  closure : Closure → Closure → Prop
  identity_iff : ∀ {i i' j j'}, identity i i' → identity j j' → (i = j ↔ i' = j')
  function_eq : ∀ {i i' j}, function i i' → function j i' → i = j
  closure_id : ∀ {c c'}, closure c c' → c.id = c'.id
  closure_params : ∀ {c c'}, closure c c' → c.graph.params = c'.graph.params

/-- A link in which no closure stands for two. -/
class Link.Exact (L : Link) : Prop where
  function_eq : ∀ {i i' j'}, L.function i i' → L.function i j' → i' = j'

variable {L : Link}

mutual

/-- Values that differ only in what a link allows. -/
inductive Value.Related (L : Link) : Value → Value → Prop where
  | unit : Value.Related L .unit .unit
  | bool (b : Bool) : Value.Related L (.bool b) (.bool b)
  | int (n : Int64) : Value.Related L (.int n) (.int n)
  | float (x : Float) : Value.Related L (.float x) (.float x)
  | str (s : String) : Value.Related L (.str s) (.str s)
  | tuple {vs vs' : List Value} (h : List.Forall₂ (Value.Related L) vs vs') :
    Value.Related L (.tuple vs) (.tuple vs')
  | function {f f' : Function} (h : Function.Related L f f') :
    Value.Related L (.function f) (.function f')
  | struct {f f' : Function} (h : Function.Related L f f') :
    Value.Related L (.struct f) (.struct f')
  | library {i i' : Nat} (name : String) {ss ss' : List (String × Value)} (hi : L.identity i i')
    (h : SymbolsRelated L ss ss') : Value.Related L (.library i name ss) (.library i' name ss')

/-- Functions that differ only in what a link allows. -/
inductive Function.Related (L : Link) : Function → Function → Prop where
  | native (n : Native) : Function.Related L (.native n) (.native n)
  | method {i i' : Nat} {v v' : Value} (m : Method) (hi : L.identity i i')
    (h : Value.Related L v v') : Function.Related L (.method i v m) (.method i' v' m)
  | closure {i i' : Nat} {c c' : Closure} (hi : L.function i i') (h : L.closure c c') :
    Function.Related L (.closure i c) (.closure i' c')

/-- Symbols with the same names and related values. -/
inductive SymbolsRelated (L : Link) :
    List (String × Value) → List (String × Value) → Prop where
  | nil : SymbolsRelated L [] []
  | cons (name : String) {v v' : Value} {ss ss' : List (String × Value)}
    (h : Value.Related L v v') (hs : SymbolsRelated L ss ss') :
    SymbolsRelated L ((name, v) :: ss) ((name, v') :: ss')

end

/-- Lists of related values. -/
abbrev Value.AllRelated (L : Link) : List Value → List Value → Prop :=
  List.Forall₂ (Value.Related L)

/-- A link that allows at least what another does. -/
structure Link.Le (L L' : Link) : Prop where
  identity : ∀ {i i'}, L.identity i i' → L'.identity i i'
  function : ∀ {i i'}, L.function i i' → L'.function i i'
  closure : ∀ {c c'}, L.closure c c' → L'.closure c c'

theorem Link.Le.refl (L : Link) : L.Le L := ⟨id, id, id⟩

theorem Link.Le.trans {L L' L'' : Link} (h : L.Le L') (h' : L'.Le L'') : L.Le L'' :=
  ⟨fun hi => h'.identity (h.identity hi), fun hi => h'.function (h.function hi),
    fun hc => h'.closure (h.closure hc)⟩

mutual

theorem Value.Related.mono {L L' : Link} (hL : L.Le L') {v v' : Value} (h : Value.Related L v v') :
    Value.Related L' v v' := by
  cases v with
  | tuple vs =>
    cases h with
    | tuple hs => exact .tuple (Value.allRelated_mono hL hs)
  | function f =>
    cases h with
    | function hf => exact .function (Function.Related.mono hL hf)
  | struct f =>
    cases h with
    | struct hf => exact .struct (Function.Related.mono hL hf)
  | library i name ss =>
    cases h with
    | library _ hi hs => exact .library name (hL.identity hi) (SymbolsRelated.mono hL hs)
  | _ => cases h; constructor
termination_by structural v

theorem Function.Related.mono {L L' : Link} (hL : L.Le L') {f f' : Function}
    (h : Function.Related L f f') : Function.Related L' f f' := by
  cases f with
  | native n => cases h; exact .native n
  | method i v m =>
    cases h with
    | method _ hi hv => exact .method m (hL.identity hi) (Value.Related.mono hL hv)
  | closure i c =>
    cases h with
    | closure hi hc => exact .closure (hL.function hi) (hL.closure hc)
termination_by structural f

theorem Value.allRelated_mono {L L' : Link} (hL : L.Le L') {vs vs' : List Value}
    (h : Value.AllRelated L vs vs') : Value.AllRelated L' vs vs' := by
  cases vs with
  | nil => cases h; exact .nil
  | cons v vs =>
    cases h with
    | cons h hs => exact .cons (Value.Related.mono hL h) (Value.allRelated_mono hL hs)
termination_by structural vs

theorem SymbolsRelated.mono {L L' : Link} (hL : L.Le L') {ss ss' : List (String × Value)}
    (h : SymbolsRelated L ss ss') : SymbolsRelated L' ss ss' := by
  match ss, h with
  | [], .nil => exact .nil
  | (_, _) :: ss, .cons name h hs =>
    exact .cons name (Value.Related.mono hL h) (SymbolsRelated.mono hL hs)
termination_by structural ss

end

mutual

/-- One link after another. -/
theorem Value.Related.comp {L L' L'' : Link}
    (hi : ∀ {i j k}, L.identity i j → L'.identity j k → L''.identity i k)
    (hf : ∀ {i j k}, L.function i j → L'.function j k → L''.function i k)
    (hc : ∀ {a b c}, L.closure a b → L'.closure b c → L''.closure a c) {v v' v'' : Value}
    (h : Value.Related L v v') (h' : Value.Related L' v' v'') : Value.Related L'' v v'' := by
  cases v with
  | tuple vs =>
    cases h with
    | tuple hs =>
      cases h' with
      | tuple hs' => exact .tuple (Value.allRelated_comp hi hf hc hs hs')
  | function f =>
    cases h with
    | function hg =>
      cases h' with
      | function hg' => exact .function (Function.Related.comp hi hf hc hg hg')
  | struct f =>
    cases h with
    | struct hg =>
      cases h' with
      | struct hg' => exact .struct (Function.Related.comp hi hf hc hg hg')
  | library i name ss =>
    cases h with
    | library _ hid hs =>
      cases h' with
      | library _ hid' hs' => exact .library name (hi hid hid') (SymbolsRelated.comp hi hf hc hs hs')
  | _ =>
    cases h
    cases h'
    constructor
termination_by structural v

theorem Function.Related.comp {L L' L'' : Link}
    (hi : ∀ {i j k}, L.identity i j → L'.identity j k → L''.identity i k)
    (hf : ∀ {i j k}, L.function i j → L'.function j k → L''.function i k)
    (hc : ∀ {a b c}, L.closure a b → L'.closure b c → L''.closure a c) {f f' f'' : Function}
    (h : Function.Related L f f') (h' : Function.Related L' f' f'') : Function.Related L'' f f'' := by
  cases f with
  | native n =>
    cases h
    cases h'
    exact .native n
  | method i v m =>
    cases h with
    | method _ hid hv =>
      cases h' with
      | method _ hid' hv' => exact .method m (hi hid hid') (Value.Related.comp hi hf hc hv hv')
  | closure i c =>
    cases h with
    | closure hid hcl =>
      cases h' with
      | closure hid' hcl' => exact .closure (hf hid hid') (hc hcl hcl')
termination_by structural f

theorem Value.allRelated_comp {L L' L'' : Link}
    (hi : ∀ {i j k}, L.identity i j → L'.identity j k → L''.identity i k)
    (hf : ∀ {i j k}, L.function i j → L'.function j k → L''.function i k)
    (hc : ∀ {a b c}, L.closure a b → L'.closure b c → L''.closure a c) {vs vs' vs'' : List Value}
    (h : Value.AllRelated L vs vs') (h' : Value.AllRelated L' vs' vs'') :
    Value.AllRelated L'' vs vs'' := by
  cases vs with
  | nil =>
    cases h
    cases h'
    exact .nil
  | cons v vs =>
    cases h with
    | cons hv hs =>
      cases h' with
      | cons hv' hs' =>
        exact .cons (Value.Related.comp hi hf hc hv hv') (Value.allRelated_comp hi hf hc hs hs')
termination_by structural vs

theorem SymbolsRelated.comp {L L' L'' : Link}
    (hi : ∀ {i j k}, L.identity i j → L'.identity j k → L''.identity i k)
    (hf : ∀ {i j k}, L.function i j → L'.function j k → L''.function i k)
    (hc : ∀ {a b c}, L.closure a b → L'.closure b c → L''.closure a c)
    {ss ss' ss'' : List (String × Value)} (h : SymbolsRelated L ss ss')
    (h' : SymbolsRelated L' ss' ss'') : SymbolsRelated L'' ss ss'' := by
  cases ss with
  | nil =>
    cases h
    cases h'
    exact .nil
  | cons s ss =>
    obtain ⟨name, v⟩ := s
    cases h with
    | cons _ hv hs =>
      cases h' with
      | cons _ hv' hs' =>
        exact .cons name (Value.Related.comp hi hf hc hv hv') (SymbolsRelated.comp hi hf hc hs hs')
termination_by structural ss

end

/-! ## What related values have in common -/

/-- The functions are not one and the same closure. -/
def Function.Apart : Function → Function → Prop
  | closure i _, closure j _ => i ≠ j
  | _, _ => True

mutual

/-- The values do not have the same closure at the same place. Structs answer for themselves. -/
def Value.Apart : Value → Value → Prop
  | .tuple as, .tuple bs => Value.AllApart as bs
  | .function f, .function g => f.Apart g
  | _, _ => True

/-- The same of the values of two lists, one by one. -/
def Value.AllApart : List Value → List Value → Prop
  | a :: as, b :: bs => Value.Apart a b ∧ Value.AllApart as bs
  | _, _ => True

end

namespace Function.Related

variable {f f' g g' : Function}

theorem name_eq (h : Function.Related L f f') : f.name = f'.name := by
  cases h with
  | native n => rfl
  | method m _ hv => cases hv <;> rfl
  | closure _ hc => rw [Function.name, Function.name, L.closure_id hc]

theorem forms_eq (h : Function.Related L f f') : f.forms = f'.forms := by
  cases h <;> rfl

theorem same_eq (hf : Function.Related L f f') (hg : Function.Related L g g')
    (ha : L.Exact ∨ f.Apart g) : f.same g = f'.same g' := by
  cases hf with
  | native n => cases hg <;> rfl
  | method m hi _ =>
    cases hg with
    | method m' hj _ => simp only [Function.same, Bool.beq_eq_decide_eq, L.identity_iff hi hj]
    | _ => rfl
  | closure hi _ =>
    cases hg with
    | closure hj _ =>
      rw [Function.same, Function.same, Bool.eq_iff_iff, beq_iff_eq, beq_iff_eq]
      refine ⟨?_, ?_⟩
      · rintro rfl
        rcases ha with hL | hne
        · exact hL.function_eq hi hj
        · exact absurd rfl hne
      · rintro rfl
        exact L.function_eq hi hj
    | _ => rfl

end Function.Related

namespace Value.Related

theorem type_eq {v v' : Value} (h : Value.Related L v v') : v.type = v'.type := by
  cases h <;> rfl

mutual

theorem display_eq {v v' : Value} (h : Value.Related L v v') : v.display = v'.display := by
  cases v with
  | tuple vs =>
    cases h with
    | tuple h => rw [Value.display, Value.display, displayAll_eq h]
  | function f =>
    cases h with
    | function h => rw [Value.display, Value.display, Function.display, Function.display, h.name_eq]
  | _ => cases h; rfl
termination_by structural v

theorem displayAll_eq {vs vs' : List Value} (h : Value.AllRelated L vs vs') :
    Value.displayAll vs = Value.displayAll vs' := by
  cases vs with
  | nil => cases h; rfl
  | cons v vs =>
    cases h with
    | cons h hs => rw [Value.displayAll, Value.displayAll, display_eq h, displayAll_eq hs]
termination_by structural vs

end

theorem asFloat_eq {v v' : Value} (h : Value.Related L v v') : v.asFloat = v'.asFloat := by
  cases h <;> rfl

end Value.Related

theorem SymbolsRelated.lookup {ss ss' : List (String × Value)} (h : SymbolsRelated L ss ss')
    (name : String) : Option.Rel (Value.Related L) (ss.lookup name) (ss'.lookup name) := by
  induction ss generalizing ss' with
  | nil => cases h; exact .none
  | cons s ss ih =>
    cases h with
    | cons n h hs =>
      rw [List.lookup_cons, List.lookup_cons]
      cases name == n with
      | true => exact .some h
      | false => exact ih hs

namespace Value.AllRelated

variable {vs vs' : List Value}

theorem getD (h : Value.AllRelated L vs vs') (i : Nat) :
    Value.Related L (vs.getD i .unit) (vs'.getD i .unit) := by
  induction h generalizing i with
  | nil => exact .unit
  | cons hv _ ih =>
    cases i with
    | zero => exact hv
    | succ i => exact ih i

theorem headD (h : Value.AllRelated L vs vs') :
    Value.Related L (vs.headD .unit) (vs'.headD .unit) := by
  cases h with
  | nil => exact .unit
  | cons hv _ => exact hv

theorem getElem? (h : Value.AllRelated L vs vs') (i : Nat) :
    Option.Rel (Value.Related L) vs[i]? vs'[i]? := by
  induction h generalizing i with
  | nil => exact .none
  | cons hv _ ih =>
    cases i with
    | zero => exact .some hv
    | succ i => exact ih i

end Value.AllRelated

/-! ## Scripts -/

/-- Requests for related things. -/
inductive Request.Related (L : Link) : Request → Request → Prop where
  | call {f f' : Function} {vs vs' : List Value} (hf : Function.Related L f f')
    (hs : Value.AllRelated L vs vs') : Request.Related L (.call f vs) (.call f' vs')
  | load (target : String) : Request.Related L (.load target) (.load target)

/-- Answers that are related, or the same error. -/
inductive Run.Agree {α β : Type} (R : α → β → Prop) :
    Except RunError α → Except RunError β → Prop where
  | ok {a : α} {b : β} (h : R a b) : Run.Agree R (.ok a) (.ok b)
  | error (e : RunError) : Run.Agree R (.error e) (.error e)

theorem Run.Agree.mono {α β : Type} {R S : α → β → Prop} (h : ∀ a b, R a b → S a b)
    {x : Except RunError α} {y : Except RunError β} (hx : Run.Agree R x y) : Run.Agree S x y := by
  cases hx with
  | ok ha => exact .ok (h _ _ ha)
  | error e => exact .error e

/-- Scripts that end in the same way, and go on in the same way when they are answered in the same
way. -/
inductive Script.Related (L : Link) {α β : Type} (R : α → β → Prop) :
    Script α → Script β → Prop where
  | done {a : α} {b : β} (h : R a b) : Script.Related L R (.done a) (.done b)
  | fail (e : RunError) : Script.Related L R (.fail e) (.fail e)
  | ask {r r' : Request} {next : Except RunError Value → Script α}
    {next' : Except RunError Value → Script β} (hr : Request.Related L r r')
    (h : ∀ x x', Run.Agree (Value.Related L) x x' → Script.Related L R (next x) (next' x')) :
    Script.Related L R (.ask r next) (.ask r' next')
  | print (text : String) {next : Script α} {next' : Script β} (h : Script.Related L R next next') :
    Script.Related L R (.print text next) (.print text next')
  | mint {next : Nat → Script α} {next' : Nat → Script β}
    (h : ∀ i i', L.identity i i' → Script.Related L R (next i) (next' i')) :
    Script.Related L R (.mint next) (.mint next')
  | depth {next : Nat → Script α} {next' : Nat → Script β}
    (h : ∀ n, Script.Related L R (next n) (next' n)) :
    Script.Related L R (.depth next) (.depth next')

namespace Script.Related

variable {α β γ δ : Type} {R : α → β → Prop} {S : γ → δ → Prop}

theorem bind {s : Script α} {s' : Script β} {f : α → Script γ} {f' : β → Script δ}
    (hs : Script.Related L R s s') (hf : ∀ a b, R a b → Script.Related L S (f a) (f' b)) :
    Script.Related L S (s.bind f) (s'.bind f') := by
  induction hs with
  | done h => exact hf _ _ h
  | fail e => exact .fail e
  | ask hr _ ih => exact .ask hr ih
  | print text _ ih => exact .print text ih
  | mint _ ih => exact .mint ih
  | depth _ ih => exact .depth ih

theorem ofExcept {x : Except RunError α} {x' : Except RunError β} (h : Run.Agree R x x') :
    Script.Related L R (.ofExcept x) (.ofExcept x') := by
  cases h with
  | ok h => exact .done h
  | error e => exact .fail e

theorem request {r r' : Request} (hr : Request.Related L r r') :
    Script.Related L (Value.Related L) (.request r) (.request r') :=
  .ask hr fun _ _ => ofExcept

end Script.Related

/-- Scripts for related values. -/
abbrev Script.Alike (L : Link) : Script Value → Script Value → Prop :=
  Script.Related L (Value.Related L)

namespace Value.Related

variable {v v' : Value}

theorem apply (h : Value.Related L v v') {vs vs' : List Value} (hs : Value.AllRelated L vs vs') :
    Script.Alike L (Script.apply v vs) (Script.apply v' vs') := by
  cases h with
  | function hf | struct hf => exact .request (.call hf hs)
  | _ => exact .fail _

theorem bindMethod (h : Value.Related L v v') (m : Method) :
    Script.Alike L (v.bindMethod m) (v'.bindMethod m) :=
  .mint fun _ _ hi => .done (.function (.method m hi h))

theorem ofType (h : Value.Related L v v') (name : String) :
    Script.Related L (Option.Rel (Value.Related L))
      (match Method.find? (Method.ofType v.type) name with
        | some m => (do return some (← v.bindMethod m) : Script (Option Value))
        | none => return none)
      (match Method.find? (Method.ofType v'.type) name with
        | some m => (do return some (← v'.bindMethod m) : Script (Option Value))
        | none => return none) := by
  rw [h.type_eq]
  cases Method.find? (Method.ofType v'.type) name with
  | none => exact .done .none
  | some m => exact (h.bindMethod m).bind fun _ _ hf => .done (.some hf)

theorem staticField (h : Value.Related L v v') (name : String) :
    Script.Related L (Option.Rel (Value.Related L)) (v.staticField name) (v'.staticField name) := by
  have methods := h.ofType name
  cases h with
  | library n hi hs => exact .done (hs.lookup name)
  | _ => exact methods

theorem missingField_eq (h : Value.Related L v v') (name : String) :
    v.missingField name = v'.missingField name := by
  cases h <;> rfl

theorem ownField (h : Value.Related L v v') (name : String) : Script.Alike L
    ((v.staticField name).bind fun field => match field with
      | some field => .done field
      | none => match Method.find? Method.universal name with
        | some m => v.bindMethod m
        | none => .fail (v.missingField name))
    ((v'.staticField name).bind fun field => match field with
      | some field => .done field
      | none => match Method.find? Method.universal name with
        | some m => v'.bindMethod m
        | none => .fail (v'.missingField name)) := by
  refine (h.staticField name).bind fun _ _ hf => ?_
  cases hf with
  | some hf => exact .done hf
  | none =>
    cases Method.find? Method.universal name with
    | some m => exact h.bindMethod m
    | none =>
      rw [h.missingField_eq name]
      exact .fail _

theorem field (h : Value.Related L v v') (name : String) :
    Script.Alike L (v.field name) (v'.field name) := by
  have others := h.ownField name
  cases h with
  | struct hf =>
    exact .request (.call hf (.cons (.str name) .nil))
  | _ => exact others

theorem select (h : Value.Related L v v') (name : String) (form : Form) :
    Script.Alike L (v.select name form) (v'.select name form) := by
  refine (h.field name).bind fun _ _ hf => ?_
  cases hf with
  | function hf =>
    dsimp only
    rw [hf.forms_eq]
    split
    · exact .done (.function hf)
    · exact .fail _
  | unit | bool | int | float | str => exact .done (by constructor)
  | tuple hs => exact .done (.tuple hs)
  | struct hf => exact .done (.struct hf)
  | library n hi hs => exact .done (.library n hi hs)

theorem callMethod (h : Value.Related L v v') (name : String) (form : Form) {vs vs' : List Value}
    (hs : Value.AllRelated L vs vs') :
    Script.Alike L (v.callMethod name form vs) (v'.callMethod name form vs') :=
  (h.select name form).bind fun _ _ hf => hf.apply hs

mutual

theorem toText {v v' : Value} (h : Value.Related L v v') : Script.Related L Eq v.toText v'.toText := by
  cases v with
  | struct f =>
    cases h with
    | struct hf =>
      rw [Value.toText, Value.toText]
      refine (callMethod (.struct hf) "str" .member .nil).bind fun _ _ hr => ?_
      cases hr with
      | str s => exact .done rfl
      | _ => exact .fail _
  | tuple vs =>
    cases h with
    | tuple hs =>
      rw [Value.toText, Value.toText]
      exact (toTexts hs).bind fun _ _ ht => .done (congrArg bracketed ht)
  | function f =>
    have hd := h.display_eq
    cases h
    exact .done hd
  | _ =>
    cases h
    exact .done rfl
termination_by structural v

theorem toTexts {vs vs' : List Value} (h : Value.AllRelated L vs vs') :
    Script.Related L Eq (Value.toTexts vs) (Value.toTexts vs') := by
  cases vs with
  | nil => cases h; exact .done rfl
  | cons v vs =>
    cases h with
    | cons h hs =>
      have first := toText h
      have rest := toTexts hs
      rw [Value.toTexts, Value.toTexts]
      refine first.bind fun _ _ ht => rest.bind fun _ _ hts => .done ?_
      rw [ht, hts]
termination_by structural vs

end

mutual

theorem equals {v v' w w' : Value} (hv : Value.Related L v v') (hw : Value.Related L w w')
    (ha : L.Exact ∨ v.Apart w) : Script.Related L Eq (v.equals w) (v'.equals w') := by
  cases v with
  | struct f =>
    cases hv with
    | struct hf =>
      rw [Value.equals, Value.equals]
      refine (callMethod (.struct hf) "==" .binary (.cons hw .nil)).bind fun _ _ hr => ?_
      cases hr with
      | bool b => exact .done rfl
      | _ => exact .fail _
  | tuple vs =>
    cases hv with
    | tuple hvs =>
      cases hw with
      | tuple hws =>
        rw [Value.equals, Value.equals, hvs.length_eq, hws.length_eq]
        split
        · exact equalsAll hvs hws ha
        · exact .done rfl
      | _ => exact .done rfl
  | function f =>
    cases hv with
    | function hf =>
      cases hw with
      | function hg => exact .done (hf.same_eq hg ha)
      | _ => exact .done rfl
  | library i name ss =>
    cases hv with
    | library _ hi _ =>
      cases hw with
      | library _ hj _ =>
        refine .done ?_
        simp only [Value.hostEq, Bool.beq_eq_decide_eq, L.identity_iff hi hj]
      | _ => exact .done rfl
  | _ =>
    cases hv
    cases hw <;> exact .done rfl
termination_by structural v

theorem equalsAll {vs vs' ws ws' : List Value} (hv : Value.AllRelated L vs vs')
    (hw : Value.AllRelated L ws ws') (ha : L.Exact ∨ Value.AllApart vs ws) :
    Script.Related L Eq (Value.equalsAll vs ws) (Value.equalsAll vs' ws') := by
  cases vs with
  | nil => cases hv; cases hw <;> exact .done rfl
  | cons v vs =>
    cases hv with
    | cons hv hvs =>
      cases hw with
      | nil => exact .done rfl
      | cons hw hws =>
        have first := equals hv hw (ha.imp_right And.left)
        have rest := equalsAll hvs hws (ha.imp_right And.right)
        rw [Value.equalsAll, Value.equalsAll]
        refine first.bind fun _ _ hr => ?_
        subst hr
        split
        · exact rest
        · exact .done rfl
termination_by structural vs

end

end Value.Related

/-! ## Built-in functions -/

/-- A result without functions in it is the same on both sides. -/
theorem Script.ofExcept_related {α : Type} {R : α → α → Prop} {x : Except RunError α}
    (h : ∀ a, x = .ok a → R a a) : Script.Related L R (.ofExcept x) (.ofExcept x) := by
  cases x with
  | ok a => exact .done (h a rfl)
  | error e => exact .fail e

/-- The value is a number. -/
def Value.IsNumber (v : Value) : Prop := (∃ n, v = .int n) ∨ ∃ x, v = .float x

theorem Value.Related.of_isNumber {v : Value} (h : v.IsNumber) : Value.Related L v v := by
  obtain ⟨n, rfl⟩ | ⟨x, rfl⟩ := h
  · exact .int n
  · exact .float x

theorem checked_isNumber {name : String} {n : Int} {v : Value} (h : checked name n = .ok v) :
    v.IsNumber := by
  unfold checked at h
  split at h
  · cases h
    exact .inl ⟨_, rfl⟩
  · cases h

theorem intDiv_isNumber {a b : Int64} {v : Value} (h : intDiv a b = .ok v) : v.IsNumber := by
  unfold intDiv at h
  split at h
  · cases h
  · exact checked_isNumber h

theorem intRem_isNumber {a b : Int64} {v : Value} (h : intRem a b = .ok v) : v.IsNumber := by
  unfold intRem at h
  split at h
  · cases h
  · split at h
    · cases h
    · exact checked_isNumber h

theorem intPow_isNumber {a b : Int64} {v : Value} (h : intPow a b = .ok v) : v.IsNumber := by
  unfold intPow at h
  repeat' split at h
  all_goals first | exact checked_isNumber h | cases h

theorem floatDiv_isNumber {x y : Float} {v : Value} (h : floatDiv x y = .ok v) : v.IsNumber := by
  unfold floatDiv at h
  split at h <;> cases h
  exact .inr ⟨_, rfl⟩

theorem floatMod_isNumber {x y : Float} {v : Value} (h : floatMod x y = .ok v) : v.IsNumber := by
  unfold floatMod at h
  split at h <;> cases h
  exact .inr ⟨_, rfl⟩

theorem operands_eq {name : String} {v v' w w' : Value} (hv : Value.Related L v v')
    (hw : Value.Related L w w') : operands name v w = operands name v' w' := by
  cases hv <;> cases hw <;> rfl

theorem arithmetic_related {name : String} {ints : Int64 → Int64 → Except RunError Value}
    {floats : Float → Float → Except RunError Value}
    (hi : ∀ a b v, ints a b = .ok v → Value.Related L v v)
    (hf : ∀ x y v, floats x y = .ok v → Value.Related L v v) {v v' w w' : Value}
    (hv : Value.Related L v v') (hw : Value.Related L w w') :
    Script.Alike L (arithmetic name ints floats v w) (arithmetic name ints floats v' w') := by
  unfold arithmetic
  rw [operands_eq hv hw]
  refine Script.ofExcept_related fun a ha => ?_
  cases ho : operands name v' w' with
  | error e =>
    rw [ho] at ha
    cases ha
  | ok o =>
    rw [ho] at ha
    cases o with
    | ints a b => exact hi a b _ ha
    | floats x y => exact hf x y _ ha

theorem comparison_related {name : String} {ints : Int64 → Int64 → Bool}
    {floats : Float → Float → Bool} {v v' w w' : Value} (hv : Value.Related L v v')
    (hw : Value.Related L w w') :
    Script.Alike L (comparison name ints floats v w) (comparison name ints floats v' w') := by
  refine arithmetic_related (fun a b v h => ?_) (fun x y v h => ?_) hv hw
  · cases h
    exact .bool _
  · cases h
    exact .bool _

theorem logic_related {name : String} {f : Bool → Bool → Bool} {v v' w w' : Value}
    (hv : Value.Related L v v') (hw : Value.Related L w w') :
    Script.Alike L (logic name f v w) (logic name f v' w') := by
  cases hv with
  | bool a =>
    cases hw with
    | bool b => exact .done (.bool _)
    | _ => exact .fail _
  | _ => exact .fail _

theorem itemAt_related {vs vs' : List Value} (h : Value.AllRelated L vs vs') (index : Int64) :
    Script.Alike L (itemAt vs index) (itemAt vs' index) := by
  unfold itemAt
  dsimp only
  rw [h.length_eq]
  by_cases h0 : 0 ≤ index.toInt
  · have hi := h.getElem? index.toInt.toNat
    rw [if_pos h0, if_pos h0]
    generalize vs[index.toInt.toNat]? = x, vs'[index.toInt.toNat]? = x' at hi
    cases hi with
    | some hv => exact .done hv
    | none => exact .fail _
  · rw [if_neg h0, if_neg h0]
    exact .fail _

/-- The methods that compare a value with their argument. -/
def Method.compares : Method → Bool
  | equal | differ => true
  | _ => false

/-- Methods of related values, with related arguments. -/
theorem Method.script_related (m : Method) {v v' : Value} {vs vs' : List Value}
    (hv : Value.Related L v v') (hs : Value.AllRelated L vs vs')
    (hm : L.Exact ∨ (m.compares = true → v.Apart (vs.headD .unit))) :
    Script.Alike L (m.script v vs) (m.script v' vs') := by
  have number {v : Value} (h : v.IsNumber) : Value.Related L v v := .of_isNumber h
  have ha := hs.headD
  cases m with
  | add | mul =>
    exact arithmetic_related (fun _ _ _ h => number (checked_isNumber h))
      (fun _ _ _ h => number (by cases h; exact .inr ⟨_, rfl⟩)) hv ha
  | sub =>
    rw [script, script]
    have he : vs.isEmpty = vs'.isEmpty := by cases hs <;> rfl
    rw [he]
    split
    · cases hv with
      | int a => exact Script.ofExcept_related fun _ h => number (checked_isNumber h)
      | float x => exact .done (.float _)
      | _ => exact .fail _
    · exact arithmetic_related (fun _ _ _ h => number (checked_isNumber h))
        (fun _ _ _ h => number (by cases h; exact .inr ⟨_, rfl⟩)) hv ha
  | div =>
    exact arithmetic_related (fun _ _ _ h => number (intDiv_isNumber h))
      (fun _ _ _ h => number (floatDiv_isNumber h)) hv ha
  | rem =>
    exact arithmetic_related (fun _ _ _ h => number (intRem_isNumber h))
      (fun _ _ _ h => number (floatMod_isNumber h)) hv ha
  | lt | gt | le | ge => exact comparison_related hv ha
  | not =>
    cases hv with
    | bool b => exact .done (.bool _)
    | _ => exact .fail _
  | and | or => exact logic_related hv ha
  | concat =>
    unfold script
    dsimp only
    generalize vs.headD .unit = w, vs'.headD .unit = w' at ha
    cases hv with
    | str s =>
      cases ha with
      | str t => exact .done (.str _)
      | _ => exact .fail _
    | _ => exact .fail _
  | textLength =>
    cases hv with
    | str s => exact .done (.int _)
    | _ => exact .fail _
  | tupleLength =>
    cases hv with
    | tuple hs =>
      rw [script, script, hs.length_eq]
      exact .done (.int _)
    | _ => exact .fail _
  | tupleGet =>
    unfold script
    dsimp only
    generalize vs.headD .unit = w, vs'.headD .unit = w' at ha
    cases hv with
    | tuple hs =>
      cases ha with
      | int i => exact itemAt_related hs i
      | _ => exact .fail _
    | _ => cases ha <;> exact .fail _
  | text =>
    refine hv.toText.bind fun _ _ ht => ?_
    subst ht
    exact .done (.str _)
  | equal | differ =>
    refine (hv.equals ha (hm.imp_right fun h => h rfl)).bind fun _ _ hr => ?_
    subst hr
    exact .done (.bool _)

theorem spacedText_related {vs vs' : List Value} (hs : Value.AllRelated L vs vs') :
    Script.Related L Eq (spacedText vs) (spacedText vs') :=
  (Value.Related.toTexts hs).bind fun _ _ ht => .done (by rw [ht])

/-- Built-in functions with related arguments. -/
theorem Builtin.script_related (b : Builtin) {vs vs' : List Value}
    (hs : Value.AllRelated L vs vs') : Script.Alike L (b.script vs) (b.script vs') := by
  have h0 := hs.getD 0
  have h1 := hs.getD 1
  have h2 := hs.getD 2
  cases b with
  | print | println =>
    refine (spacedText_related hs).bind fun _ _ ht => ?_
    subst ht
    exact .print _ (.done .unit)
  | tuple => exact .done (.tuple hs)
  | choose =>
    unfold script
    dsimp only
    generalize vs.getD 0 .unit = v, vs'.getD 0 .unit = v' at h0
    cases h0 with
    | bool b =>
      cases b with
      | true => exact h1.apply .nil
      | false => exact h2.apply .nil
    | _ => exact h2.apply .nil
  | struct =>
    unfold script
    dsimp only
    generalize vs.getD 0 .unit = v, vs'.getD 0 .unit = v' at h0
    cases h0 with
    | function hf => exact .done (.struct hf)
    | _ => exact .fail _
  | load =>
    unfold script
    dsimp only
    generalize vs.getD 0 .unit = v, vs'.getD 0 .unit = v' at h0
    cases h0 <;> exact .request (.load _)
  | sqrt =>
    unfold script
    dsimp only
    rw [h0.asFloat_eq]
    exact .done (.float _)
  | abs =>
    unfold script
    dsimp only
    generalize vs.getD 0 .unit = v, vs'.getD 0 .unit = v' at h0
    have hx := h0.asFloat_eq
    cases h0 with
    | int n => exact Script.ofExcept_related fun _ h => .of_isNumber (checked_isNumber h)
    | _ =>
      dsimp only
      rw [hx]
      exact .done (.float _)
  | floor =>
    unfold script
    dsimp only
    generalize vs.getD 0 .unit = v, vs'.getD 0 .unit = v' at h0
    have hx := h0.asFloat_eq
    cases h0 with
    | int n => exact .done (.int n)
    | _ =>
      dsimp only
      rw [hx]
      exact .done (.float _)
  | pow =>
    unfold script
    dsimp only
    generalize vs.getD 0 .unit = v, vs'.getD 0 .unit = v' at h0
    generalize vs.getD 1 .unit = w, vs'.getD 1 .unit = w' at h1
    have hx := h0.asFloat_eq
    have hy := h1.asFloat_eq
    cases h0 with
    | int a =>
      cases h1 with
      | int b =>
        dsimp only
        split
        · exact Script.ofExcept_related fun _ h => .of_isNumber (intPow_isNumber h)
        · exact .done (.float _)
      | _ =>
        dsimp only
        rw [hy]
        exact .done (.float _)
    | _ =>
      dsimp only
      rw [hx, hy]
      exact .done (.float _)
  | min | max =>
    unfold script
    dsimp only
    generalize vs.getD 0 .unit = v, vs'.getD 0 .unit = v' at h0
    generalize vs.getD 1 .unit = w, vs'.getD 1 .unit = w' at h1
    have hx := h0.asFloat_eq
    have hy := h1.asFloat_eq
    cases h0 with
    | int a =>
      cases h1 with
      | int b => exact .done (.int _)
      | _ =>
        dsimp only
        rw [hy]
        exact .done (.float _)
    | _ =>
      dsimp only
      rw [hx, hy]
      exact .done (.float _)

/-! ## Checks of arguments -/

theorem Signature.firstBad_eq (s : Signature) {vs vs' : List Value}
    (h : Value.AllRelated L vs vs') (index : Nat) : s.firstBad index vs = s.firstBad index vs' := by
  induction h generalizing index with
  | nil => rfl
  | cons hv _ ih =>
    rw [firstBad, firstBad]
    cases s.kindAt index with
    | none => exact ih (index + 1)
    | some kind =>
      dsimp only
      rw [hv.type_eq, ih (index + 1)]

theorem Signature.check_eq (s : Signature) (function : String) {vs vs' : List Value}
    (h : Value.AllRelated L vs vs') : s.check function vs = s.check function vs' := by
  rw [check, check, h.length_eq, s.firstBad_eq h 0]

end Dataflow
