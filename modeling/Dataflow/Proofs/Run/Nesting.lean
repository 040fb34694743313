import Dataflow.Compile.Emit
import Dataflow.Proofs.Run.Below
import Dataflow.Proofs.Run.Memory

/-!
# How requests nest

Only calls of closures count towards the limit on the depth of calls. The functions and methods
that are built in call back into the program as well: `print` asks structs for their text, `if`
calls a branch, and the methods `str`, `==` and `!=` of a tuple ask the structs in it. So a run ends
exactly if the methods that are open at one depth of calls never get more than some bound.

* `Host.answerWithin`: answers with a bound on how many methods may be open at one depth; it needs
  no bound on nesting;
* `Request.Plain`, `Builtin.script_asks_plain`: what built-in functions ask for;
* **`Host.endsWith_iff_endsWithin`**: a run ends exactly if some bound on open methods is enough, and
  with the same result;
* **`Host.endless_never_ends`**: a program for which no bound is enough.
-/

namespace Dataflow

open Run

/-- A host that has no functions of its own and from which nothing can be loaded. -/
def Host.plain (maxDepth : Nat) : Host := ⟨⟨maxDepth, .sequential⟩, #[], none⟩

namespace Host

/-- How many built-in functions may be open at one depth without a method between them. -/
def openNatives : Nat := 2

/-- Answers requests at a depth of calls as long as at most `limit` methods are open at each depth.
`methods` and `natives` say how many more methods, and how many more functions before the next
method, may be opened at this depth. -/
def answerWithin (h : Host) (limit depth methods natives : Nat) : Request → Run Value
  | .call (.native n) args =>
    match natives with
    | 0 => throw .exhausted
    | natives + 1 => do
      Run.ofExcept (n.signature.check n.name args)
      (h.scriptOf n args).run (h.answerWithin limit depth methods natives) depth
  | .call (.method identity receiver m) args =>
    match methods with
    | 0 => throw .exhausted
    | methods + 1 => do
      Run.ofExcept (m.signature.check (Function.method identity receiver m).name args)
      (m.script receiver args).run (h.answerWithin limit depth methods openNatives) depth
  | .call (.closure identity c) args =>
    if args.length = c.graph.params.toNat then
      if _ : h.maxDepth < depth + 1 then fail (.tooDeep (depth + 1) h.maxDepth)
      else c.graph.run (h.answerWithin limit (depth + 1) limit openNatives) c.unit (depth + 1)
        (some c.scope) args
    else fail (.wrongCount (Function.closure identity c).name (toString c.graph.params.toNat)
      args.length)
  | .load target => fail (.noLoader target)
termination_by (h.maxDepth - depth, methods, natives)

/-- How deeply requests nest, at most, with the given numbers of methods and functions that may be
opened at a depth. -/
def nesting (h : Host) (limit depth methods natives : Nat) : Nat :=
  (h.maxDepth - depth) * (3 * limit + 3) + 3 * methods + natives + 1

/-- The bound on open methods bounds the nesting of requests. -/
theorem answerWithin_below (maxDepth limit depth methods natives : Nat) (r : Request) :
    Below ((plain maxDepth).answerWithin limit depth methods natives r)
      ((plain maxDepth).answer ((plain maxDepth).nesting limit depth methods natives) depth r) := by
  fun_induction (plain maxDepth).answerWithin limit depth methods natives r with
  | case1 | case3 => exact exhausted_below _
  | case2 depth methods n args natives ih =>
    exact Below.bind_right _ fun _ => Script.run_below (fun r _ => ih r) depth _ (Script.asks_any _)
  | case4 depth natives identity receiver m args methods ih =>
    rw [show (plain maxDepth).nesting limit depth (methods + 1) natives
      = ((plain maxDepth).nesting limit depth methods openNatives + natives) + 1 by
        simp only [nesting, openNatives]; omega]
    refine Below.bind_right _ fun _ => Script.run_below (fun r _ => ?_) depth _ (Script.asks_any _)
    exact (ih r).trans (answer_mono _ (Nat.le_add_right _ _) depth r)
  | case5 depth methods natives identity c args hc hd =>
    rw [nesting, answer_closure, if_pos hc, if_pos hd]
    exact .refl _
  | case6 depth methods natives identity c args hc hd ih =>
    rw [nesting, answer_closure, if_pos hc, if_neg hd]
    refine c.graph.run_below (fun r => (ih r).trans (answer_mono _ ?_ (depth + 1) r)) _ _ _ _
    have hs : (plain maxDepth).maxDepth - depth = (plain maxDepth).maxDepth - (depth + 1) + 1 := by
      omega
    rw [nesting, hs, Nat.add_mul]
    simp only [openNatives]
    omega
  | case7 depth methods natives identity c args hc =>
    rw [nesting, answer_closure, if_neg hc]
    exact .refl _
  | case8 => exact .refl _

end Host

/-! ## What built-in functions ask for -/

namespace Script

variable {α β : Type}

theorem Asks.mono {P Q : Request → Prop} (hPQ : ∀ r, P r → Q r) {s : Script α} (hs : s.Asks P) :
    s.Asks Q := by
  induction s with
  | done _ | fail _ => trivial
  | ask r next ih => exact ⟨hPQ r hs.1, fun x => ih x (hs.2 x)⟩
  | print text next ih => exact ih hs
  | mint next ih | depth next ih => exact fun n => ih n (hs n)

theorem ofExcept_asks (P : Request → Prop) (x : Except RunError α) : (ofExcept x).Asks P := by
  cases x <;> trivial

theorem request_asks {P : Request → Prop} {r : Request} (hr : P r) : (request r).Asks P :=
  ⟨hr, ofExcept_asks P⟩

theorem Asks.bind {P : Request → Prop} {s : Script α} {f : α → Script β} (hs : s.Asks P)
    (hf : ∀ a, (f a).Asks P) : (s.bind f).Asks P := by
  induction s with
  | done a => exact hf a
  | fail _ => trivial
  | ask r next ih => exact ⟨hs.1, fun x => ih x (hs.2 x)⟩
  | print text next ih => exact ih hs
  | mint next ih | depth next ih => exact fun n => ih n (hs n)

end Script

/-- A load, or a call with no arguments or with one text. -/
def Request.Plain : Request → Prop
  | .call _ args => args = [] ∨ ∃ s, args = [.str s]
  | .load _ => True

/-- A load. -/
def Request.IsLoad : Request → Prop
  | .call _ _ => False
  | .load _ => True

open Script

namespace Value

theorem apply_asks_plain (v : Value) : (Script.apply v []).Asks Request.Plain := by
  cases v with
  | function f | struct f => exact request_asks (.inl rfl)
  | _ => trivial

theorem bindMethod_asks (P : Request → Prop) (v : Value) (m : Method) :
    (v.bindMethod m).Asks P := fun _ => trivial

theorem staticField_asks (P : Request → Prop) (v : Value) (name : String) :
    (v.staticField name).Asks P := by
  unfold staticField
  split
  · trivial
  · split
    · exact (bindMethod_asks P _ _).bind fun _ => trivial
    · trivial

theorem field_asks_plain (v : Value) (name : String) : (v.field name).Asks Request.Plain := by
  unfold field
  split
  · exact request_asks (.inr ⟨name, rfl⟩)
  · refine (staticField_asks _ _ name).bind fun field => ?_
    split
    · trivial
    · split
      · exact bindMethod_asks _ _ _
      · trivial

theorem select_asks_plain (v : Value) (name : String) (form : Form) :
    (v.select name form).Asks Request.Plain := by
  refine (v.field_asks_plain name).bind fun field => ?_
  split
  · split <;> trivial
  · trivial

theorem callMethod_asks_plain (v : Value) (name : String) (form : Form) :
    (v.callMethod name form []).Asks Request.Plain :=
  (v.select_asks_plain name form).bind fun field => field.apply_asks_plain

mutual

theorem toText_asks_plain (v : Value) : v.toText.Asks Request.Plain := by
  cases v with
  | struct dispatch =>
    rw [toText]
    refine (callMethod_asks_plain _ _ _).bind fun v => ?_
    split <;> trivial
  | tuple items =>
    rw [toText]
    exact (toTexts_asks_plain items).bind fun _ => trivial
  | _ => simp [toText, Asks]

theorem toTexts_asks_plain (vs : List Value) : (toTexts vs).Asks Request.Plain := by
  cases vs with
  | nil => simp [toTexts, Asks]
  | cons v vs =>
    rw [toTexts]
    exact (toText_asks_plain v).bind fun _ => (toTexts_asks_plain vs).bind fun _ => trivial

end

end Value

theorem spacedText_asks_plain (args : List Value) : (spacedText args).Asks Request.Plain :=
  (Value.toTexts_asks_plain args).bind fun _ => trivial

/-- Built-in functions call only without arguments or with a text. -/
theorem Builtin.script_asks_plain (b : Builtin) (args : List Value) :
    (b.script args).Asks Request.Plain := by
  cases b with
  | print | println => exact (spacedText_asks_plain args).bind fun _ => trivial
  | choose =>
    unfold script
    dsimp only
    split <;> exact Value.apply_asks_plain _
  | load =>
    unfold script
    dsimp only
    split <;> exact request_asks trivial
  | struct | tuple | sqrt | abs | floor | pow | min | max =>
    unfold script
    dsimp only
    repeat' split
    all_goals first | trivial | exact ofExcept_asks _ _

/-- Without arguments, or with a text, built-in functions call nothing. -/
theorem Builtin.script_asks_load (b : Builtin) {args : List Value}
    (ha : args = [] ∨ ∃ s, args = [.str s]) : (b.script args).Asks Request.IsLoad := by
  obtain rfl | ⟨s, rfl⟩ := ha <;> cases b <;> simp [script, spacedText, Value.toTexts, Value.toText,
    Script.write, Script.apply, Script.request, Script.bind, Asks, Request.IsLoad, ofExcept_asks]

namespace Host

/-- Whether a request may be made when so many more functions may be opened: functions that are
called without arguments or with a text open no others. -/
def Fits (natives : Nat) : Request → Prop
  | .call (.native n) args =>
    openNatives ≤ natives ∨ 0 < natives ∧ (Request.call (.native n) args).Plain
  | _ => True

theorem fits_of_plain {r : Request} (hr : r.Plain) : Fits 1 r := by
  unfold Fits
  split
  · exact .inr ⟨by omega, hr⟩
  · trivial

theorem scriptOf_asks_plain (maxDepth : Nat) (n : Native) (args : List Value) :
    ((plain maxDepth).scriptOf n args).Asks Request.Plain := by
  unfold scriptOf
  split
  · exact Builtin.script_asks_plain _ args
  · trivial

theorem scriptOf_asks_load (maxDepth : Nat) (n : Native) {args : List Value}
    (ha : args = [] ∨ ∃ s, args = [.str s]) :
    ((plain maxDepth).scriptOf n args).Asks Request.IsLoad := by
  unfold scriptOf
  split
  · exact Builtin.script_asks_load _ ha
  · trivial

theorem scriptOf_asks_fits (maxDepth natives : Nat) (n : Native) {args : List Value}
    (hf : Fits (natives + 1) (.call (.native n) args)) :
    ((plain maxDepth).scriptOf n args).Asks (Fits natives) := by
  rcases hf with hn | ⟨_, ha⟩
  · refine (scriptOf_asks_plain maxDepth n args).mono fun r hr => ?_
    have h1 : Fits 1 r := fits_of_plain hr
    unfold Fits at h1 ⊢
    split
    · rcases h1 with h | h
      · simp [openNatives] at h
      · exact .inr ⟨by simp [openNatives] at hn; omega, h.2⟩
    · trivial
  · refine (scriptOf_asks_load maxDepth n ha).mono fun r hr => ?_
    cases r with
    | call => exact hr.elim
    | load => trivial

/-- Nesting that is bounded bounds the methods that are open. -/
theorem answer_below_within (maxDepth limit fuel depth methods natives : Nat) (r : Request)
    (hl : fuel ≤ limit) (hm : fuel ≤ methods) (hr : Fits natives r) :
    Below ((plain maxDepth).answer fuel depth r)
      ((plain maxDepth).answerWithin limit depth methods natives r) := by
  induction fuel generalizing depth methods natives r with
  | zero => exact exhausted_below _
  | succ fuel ih =>
    cases r with
    | call f args =>
      cases f with
      | native n =>
        cases natives with
        | zero => simp [Fits, openNatives] at hr
        | succ natives =>
          rw [answerWithin]
          exact Below.bind_right _ fun _ => Script.run_below
            (fun r hr => ih depth methods natives r (by omega) (by omega) hr) depth _
            (scriptOf_asks_fits maxDepth natives n hr)
      | method identity receiver m =>
        obtain ⟨methods, rfl⟩ : ∃ k, methods = k + 1 := ⟨methods - 1, by omega⟩
        rw [answerWithin]
        refine Below.bind_right _ fun _ => Script.run_below (P := fun _ => True) (fun r _ => ?_) depth
          _ (Script.asks_any _)
        refine ih depth methods openNatives r (by omega) (by omega) ?_
        unfold Fits
        split
        · exact .inl (Nat.le_refl _)
        · trivial
      | closure identity c =>
        rw [answerWithin, answer_closure]
        split
        · split
          · exact .refl _
          · refine c.graph.run_below (fun r => ?_) _ _ _ _
            refine ih (depth + 1) limit openNatives r (by omega) (by omega) ?_
            unfold Fits
            split
            · exact .inl (Nat.le_refl _)
            · trivial
        · exact .refl _
    | load target =>
      rw [answerWithin]
      exact .refl _

theorem fits_openNatives (r : Request) : Fits openNatives r := by
  unfold Fits
  split
  · exact .inl (Nat.le_refl _)
  · trivial

/-- A program ends with a result, in a run whose requests nest as deeply as it takes. -/
def EndsWith (h : Host) (p : Program) (m : Machine) (r : EStateM.Result Stop Machine Value) : Prop :=
  ¬ Stopped r ∧ ∃ fuel, p.run (h.answer fuel 0) m = r

theorem EndsWith.of_ok {h : Host} {p : Program} {m m' : Machine} {v : Value} {fuel : Nat}
    (hr : p.run (h.answer fuel 0) m = .ok v m') : h.EndsWith p m (.ok v m') := by
  refine ⟨?_, fuel, hr⟩
  rintro ⟨m'', hs⟩
  cases hs

theorem EndsWith.of_error {h : Host} {p : Program} {m m' : Machine} {e : RunError} {fuel : Nat}
    (hr : p.run (h.answer fuel 0) m = .error (.error e) m') :
    h.EndsWith p m (.error (.error e) m') := by
  refine ⟨?_, fuel, hr⟩
  rintro ⟨m'', hs⟩
  cases hs

/-- A program ends with a result, in a run that has a bound on the methods that are open at one
depth of calls. -/
def EndsWithin (h : Host) (p : Program) (m : Machine) (r : EStateM.Result Stop Machine Value) :
    Prop :=
  ¬ Stopped r ∧ ∃ limit, p.run (h.answerWithin limit 0 limit openNatives) m = r

/-- **A program ends exactly if some bound on the methods that are open at one depth of calls is
enough for it, and with the same result.** -/
theorem endsWith_iff_endsWithin (maxDepth : Nat) (p : Program) (m : Machine)
    (r : EStateM.Result Stop Machine Value) :
    (plain maxDepth).EndsWith p m r ↔ (plain maxDepth).EndsWithin p m r := by
  refine and_congr_right fun hr => ⟨fun ⟨fuel, h⟩ => ⟨fuel, ?_⟩, fun ⟨limit, h⟩ =>
    ⟨(plain maxDepth).nesting limit 0 limit openNatives, ?_⟩⟩
  · refine below_of_eq (p.run_below fun r => ?_) hr h
    exact answer_below_within maxDepth fuel fuel 0 fuel openNatives r (Nat.le_refl _)
      (Nat.le_refl _) (fits_openNatives r)
  · exact below_of_eq (p.run_below fun r =>
      answerWithin_below maxDepth limit 0 limit openNatives r) hr h

/-- The program of the statements `fn d(name): name.str` and `println(struct(d))`. -/
def dispatching : Program where
  code := ⟨.zero, [.ofText "str"], [.enter 1, .field 1 0 .member, .leave, .argument 0, .call (-7),
    .argument 1, .call (-5)]⟩
  graph := ⟨0, 0, [.function 0 ⟨1, 1, [.steps 2 [.field 1 0 .member]], [[]]⟩,
    .steps 1 [.argument 0, .call (-7)], .steps 2 [.argument 1, .call (-5)]], [[1], [2], []]⟩
  environment := .prelude 0

/-- `println` has `d` called for the method `str` of the struct, and then this method: `d` answers with
the method `str` of its argument. -/
theorem run_dispatching : ∃ m, dispatching.run ((plain 64).answer 3 0) .blank = .ok .unit m ∧
    m.printed = #["str\n"] := by
  have h : okWith (fun v m => v.hostEq .unit && m.printed == #["str\n"])
      (dispatching.run ((plain 64).answer 3 0) .blank) = true := by
    decide +kernel
  obtain ⟨v, m, hrun, hm⟩ := exists_of_okWith h
  rw [Bool.and_eq_true, Value.hostEq_unit_iff, beq_iff_eq] at hm
  obtain ⟨rfl, hprinted⟩ := hm
  exact ⟨m, hrun, hprinted⟩

/-- A run in which a function and a method are called for a text, and which a bound is enough for. -/
theorem endsWithin_dispatching : ∃ m, (plain 64).EndsWithin dispatching .blank (.ok .unit m) ∧
    m.printed = #["str\n"] := by
  obtain ⟨m, hrun, hprinted⟩ := run_dispatching
  exact ⟨m, (endsWith_iff_endsWithin 64 dispatching .blank _).mp (.of_ok hrun), hprinted⟩

/-! ## A run that never ends -/

/-- The body of `fn d(name): tuple(struct(d)).str`. -/
def selfText : Graph :=
  ⟨1, 1, [.steps 2 [.argument 0, .call (-7)], .steps 3 [.argument 2, .call (-8)],
    .steps 4 [.field 3 0 .member]], [[1], [2], []]⟩

/-- The statements `fn d(name): tuple(struct(d)).str` and `println(struct(d))`. -/
def endlessTree : Node :=
  let struct : Node := .call default (.ident default "struct") [.ident default "d"]
  .list default [.function default "d" ["name"]
      (.select default (.call default (.ident default "tuple") [struct]) "str" .member),
    .call default (.ident default "println") [struct]]

/-- The unit of these statements. -/
def endlessCode : Code :=
  ⟨.zero, [.ofText "str"], [.enter 1, .argument 0, .call (-7), .argument 2, .call (-8),
    .field 3 0 .member, .leave, .argument 0, .call (-7), .argument 1, .call (-5)]⟩

/-- The graph of these statements. -/
def endlessGraph : Graph :=
  ⟨0, 0, [.function 0 selfText, .steps 1 [.argument 0, .call (-7)],
    .steps 2 [.argument 1, .call (-5)]], [[1], [2], []]⟩

/-- The program of these statements. -/
def endless : Program := ⟨endlessCode, endlessGraph, .prelude 0⟩

/-- The function `d`. -/
def dispatch : Closure := ⟨selfText, 0, 0, 0⟩

/-- The function `d` is declared on a machine. -/
structure Declared (m : Machine) : Prop where
  image : m.images[0]? = some endless.image
  scope : ∃ a, m.activations[0]? = some a ∧ a.first = 0 ∧
    a.slot? 0 = some (.declared selfText 0 0)

/-- The machine with one more activation and some identities. -/
def grown (m : Machine) (a : Activation) (k : Nat) : Machine := { m.grow a with identities := k }

theorem grown_activation (m : Machine) (a : Activation) (k : Nat) :
    (grown m a k).activations[m.activations.size]? = some a := by
  simp [grown, Machine.grow]

theorem put_grown {m : Machine} {a : Activation} {i : ValueId} {o : Nat}
    (ho : a.offset? i = some o) (hs : a.slot? i = none) (k : Nat) (s : Slot) :
    Run.put m.activations.size i s (grown m a k) = .ok () (grown m (a.put o s) k) := by
  rw [put_of_slot?_eq_none (grown_activation m a k) ho hs]
  exact congrArg (fun m' : Machine => EStateM.Result.ok () { m' with identities := k })
    (Machine.store_grow m a o s)

theorem Declared.grown {m : Machine} (hm : Declared m) (a : Activation) (k : Nat) :
    Declared (grown m a k) := by
  obtain ⟨a₀, ha, hf, hs⟩ := hm.scope
  have h0 : 0 ≠ m.activations.size := by
    intro h
    rw [Array.getElem?_eq_none (by omega)] at ha
    cases ha
  refine ⟨hm.image, a₀, ?_, hf, hs⟩
  show (m.grow a).activations[0]? = _
  rw [Machine.activations_grow, if_neg h0, ha]

theorem find_dispatch {m : Machine} (hm : Declared m) {a : Activation} (ha : a.parent = some 0)
    (hf : a.first = 1) (k : Nat) :
    Run.find m.activations.size 0 (grown m a k) =
      .ok (.function (.closure k dispatch)) (grown m a (k + 1)) := by
  obtain ⟨a₀, ha₀, hf₀, hs₀⟩ := (hm.grown a k).scope
  have h0 : 0 < m.activations.size := by
    obtain ⟨a₁, ha₁, _⟩ := hm.scope
    exact (Array.getElem?_eq_some_iff.mp ha₁).1
  have hh : (Host.grown m a k).holder? 0 m.activations.size = some 0 := by
    rw [Machine.holder?, grown_activation]
    simp only [hf, ha, h0, ↓reduceDIte]
    rw [Machine.holder?, ha₀]
    simp [hf₀]
  rw [Run.find_apply, hh]
  dsimp only
  rw [Machine.slot?_eq_of_activation ha₀, hs₀]
  rfl

theorem image_endless {m : Machine} (hm : Declared m) :
    m.images.getD 0 default = endless.image := by
  rw [Array.getD_eq_getD_getElem?, hm.image]
  rfl

theorem find_builtin {m : Machine} (hm : Declared m) (scope depth : Nat) {id : ValueId} {b : Builtin}
    (hid : id.isBuiltin = true) (hb : (Environment.prelude 0).get? id = some (.ofBuiltin b)) :
    (Frame.mk 0 scope depth).find id m = .ok (.ofBuiltin b) m := by
  rw [Frame.find_of_isBuiltin _ hid, image_endless hm,
    show endless.image.environment = .prelude 0 from rfl, hb]

theorem fieldName_zero {m : Machine} (hm : Declared m) (scope depth : Nat) :
    (Frame.mk 0 scope depth).fieldName 0 m = .ok "str" m := by
  have hc : (Constant.ofText "str").value? = some (.str "str") := by cbv
  have hv : (Frame.mk 0 scope depth).constant 0 m = .ok (.str "str") m := by
    rw [Frame.constant_apply, image_endless hm,
      show endless.image.constants[(0 : ConstantId).toNat]? = some (.ofText "str") from rfl]
    simp only [hc]
  exact bind_ok hv

theorem find_local {m : Machine} {a : Activation} {i : ValueId} {v : Value} (k depth : Nat)
    (hi : i.isBuiltin = false) (hf : a.first ≤ i) (hs : a.slot? i = some (.value v)) :
    (Frame.mk 0 m.activations.size depth).find i (grown m a k) = .ok v (grown m a k) := by
  unfold Frame.find
  rw [hi]
  show Run.find _ i (grown m a k) = _
  rw [Run.find_apply, Machine.holder?, grown_activation]
  simp only [hf, ↓reduceIte]
  rw [Machine.slot?_eq_of_activation (grown_activation m a k), hs]

theorem selfText_run {a : Request → Run Value}
    (hs : ∀ f m, a (.call (.native Builtin.struct.native) [.function f]) m = .ok (.struct f) m)
    (ht : ∀ v m, a (.call (.native Builtin.tuple.native) [v]) m = .ok (.tuple [v]) m)
    {m : Machine} (hm : Declared m) (name : String) : ∃ i j m', Declared m' ∧
      selfText.run a 0 1 (some 0) [.str name] m =
        .ok (.function (.method i (.tuple [.struct (.closure j dispatch)]) .text)) m' := by
  let n := m.activations.size
  let k := m.identities
  let f : Frame := ⟨0, n, 1⟩
  let struct : Value := .struct (.closure k dispatch)
  let method : Value := .function (.method (k + 1) (.tuple [struct]) .text)
  let a₀ := Activation.blank (some 0) 1 4
  let a₁ := a₀.put 0 (.value (.str name))
  let a₂ := a₁.put 1 (.value struct)
  let a₃ := a₂.put 2 (.value (.tuple [struct]))
  let a₄ := a₃.put 3 (.value method)
  have h12 : (1 : Int32) ≤ 2 := by decide
  have h13 : (1 : Int32) ≤ 3 := by decide
  have hargs : bindArguments n selfText.first [.str name] (m.grow a₀) = .ok () (grown m a₁ k) :=
    bind_ok (put_grown (m := m) (a := a₀) (i := 1) (o := 0) rfl rfl k _)
  have h₂ : selfText.runBlock a f 0 (grown m a₁ k) = .ok () (grown m a₂ (k + 1)) := by
    have hv : runSteps a f 2 [] [.argument 0, .call (-7)] (grown m a₁ k) =
        .ok struct (grown m a₁ (k + 1)) := by
      rw [runSteps, bind_ok (show f.find 0 _ = _ from find_dispatch hm rfl rfl k), runSteps,
        bind_ok (find_builtin (hm.grown _ _) n 1 (b := .struct) rfl rfl)]
      exact (congrFun (Script.run_request a 1 _) _).trans (hs _ _)
    exact (bind_ok hv).trans (put_grown (a := a₁) (i := 2) (o := 1) rfl rfl _ _)
  have h₃ : selfText.runBlock a f 1 (grown m a₂ (k + 1)) = .ok () (grown m a₃ (k + 1)) := by
    have hv : runSteps a f 3 [] [.argument 2, .call (-8)] (grown m a₂ (k + 1)) =
        .ok (.tuple [struct]) (grown m a₂ (k + 1)) := by
      rw [runSteps, bind_ok (find_local (a := a₂) (i := 2) (v := struct) _ _ rfl h12 rfl),
        runSteps, bind_ok (find_builtin (hm.grown _ _) n 1 (b := .tuple) rfl rfl)]
      exact (congrFun (Script.run_request a 1 _) _).trans (ht _ _)
    exact (bind_ok hv).trans (put_grown (a := a₂) (i := 3) (o := 2) rfl rfl _ _)
  have h₄ : selfText.runBlock a f 2 (grown m a₃ (k + 1)) = .ok () (grown m a₄ (k + 2)) := by
    have hv : runSteps a f 4 [] [.field 3 0 .member] (grown m a₃ (k + 1)) =
        .ok method (grown m a₃ (k + 2)) := by
      rw [runSteps, bind_ok (find_local (a := a₃) (i := 3) (v := .tuple [struct]) _ _ rfl
        h13 rfl), bind_ok (fieldName_zero (hm.grown _ _) n 1)]
      rfl
    exact (bind_ok hv).trans (put_grown (a := a₃) (i := 4) (o := 3) rfl rfl _ _)
  refine ⟨k + 1, k, grown m a₄ (k + 2), hm.grown _ _, ?_⟩
  rw [Graph.run_eq (show selfText.result? = some 4 from rfl), bind_ok (enter_apply _ _ _ m),
    show Peel.order selfText.blocks.length selfText.dependents = [0, 1, 2] from rfl]
  have hblocks : [0, 1, 2].forM (selfText.runBlock a f) (grown m a₁ k) =
      .ok () (grown m a₄ (k + 2)) :=
    (bind_ok h₂).trans ((bind_ok h₃).trans ((bind_ok h₄).trans rfl))
  have hr : Run.read n 4 (grown m a₄ (k + 2)) = .ok (some method) (grown m a₄ (k + 2)) := by
    rw [Run.read_apply, Machine.slot?_eq_of_activation (grown_activation m a₄ (k + 2))]
    rfl
  exact (bind_ok hargs).trans ((bind_ok hblocks).trans (bind_ok hr))

/-- A call of `d` gives the method `str` of a tuple that holds a struct over `d`. -/
theorem answer_dispatch (maxDepth fuel identity : Nat) {m : Machine} (hm : Declared m)
    (name : String) :
    Stopped ((plain (maxDepth + 1)).answer fuel 0
      (.call (.closure identity dispatch) [.str name]) m) ∨
    ∃ i j m', Declared m' ∧ (plain (maxDepth + 1)).answer fuel 0
      (.call (.closure identity dispatch) [.str name]) m =
        .ok (.function (.method i (.tuple [.struct (.closure j dispatch)]) .text)) m' := by
  let h := plain (maxDepth + 1)
  let r : Request := .call (.closure identity dispatch) [.str name]
  have h2 : ∃ i j m', Declared m' ∧ h.answer 2 0 r m =
      .ok (.function (.method i (.tuple [.struct (.closure j dispatch)]) .text)) m' := by
    obtain ⟨i, j, m', hm', hr⟩ := selfText_run (a := h.answer 1 1) (fun f m => rfl)
      (fun v m => rfl) hm name
    refine ⟨i, j, m', hm', ?_⟩
    have hcut : ¬ h.maxDepth < 0 + 1 := Nat.not_lt.mpr (Nat.le_add_left 1 maxDepth)
    have hlen : [Value.str name].length = dispatch.graph.params.toNat := rfl
    rw [answer_closure, if_pos hlen, if_neg hcut]
    exact hr
  obtain ⟨i, j, m', hm', hr⟩ := h2
  by_cases hf : fuel ≤ 2
  · rcases h.answer_mono hf 0 r m with hs | he
    · exact .inl hs
    · exact .inr ⟨i, j, m', hm', he.trans hr⟩
  · refine .inr ⟨i, j, m', hm', ?_⟩
    exact below_of_eq (h.answer_mono (show 2 ≤ fuel by omega) 0 r) (by rintro ⟨_, h⟩; cases h) hr

theorem stopped_bind {α β : Type} {x : Run α} {m : Machine} (hx : Stopped (x m)) (f : α → Run β) :
    Stopped ((x >>= f) m) := by
  obtain ⟨m', hx⟩ := hx
  exact ⟨m', bind_error hx⟩

theorem toTexts_stopped {a : Request → Run Value} {v : Value} {m : Machine}
    (hv : Stopped (v.toText.run a 0 m)) : Stopped ((Value.toTexts [v]).run a 0 m) := by
  rw [Value.toTexts, Script.bind_eq, Script.run_bind]
  exact stopped_bind hv _

/-- The text of a struct: its dispatch function is asked for the method `str`, which is then
called. -/
theorem toText_struct_run (a : Request → Run Value) (f : Function) :
    (Value.struct f).toText.run a 0 = ((a (.call f [.str "str"]) >>= fun field =>
        (match field with
          | .function g => if g.forms.admits .member then .done field
            else .fail (.wrongForm "str" .member)
          | _ => .done field : Script Value).run a 0) >>= fun field =>
        (Script.apply field []).run a 0) >>= fun text =>
      (match text with
        | .str s => .done s
        | other => .fail (.badResult "str" .string other.type) : Script String).run a 0 := by
  rw [Value.toText, Script.bind_eq, Script.run_bind, Value.callMethod, Script.bind_eq,
    Script.run_bind, Value.select, Script.bind_eq, Script.run_bind, Value.field, Script.run_request]
  rfl

theorem toText_struct_stopped_of_dispatch {a : Request → Run Value} {f : Function} {m : Machine}
    (hs : Stopped (a (.call f [.str "str"]) m)) : Stopped ((Value.struct f).toText.run a 0 m) := by
  rw [toText_struct_run]
  exact stopped_bind (stopped_bind (stopped_bind hs _) _) _

/-- What the dispatch function answers is called. -/
theorem toText_struct_stopped {a : Request → Run Value} {f g : Function} {m m' : Machine}
    (hf : a (.call f [.str "str"]) m = .ok (.function g) m') (hg : g.forms.admits .member = true)
    (hs : Stopped (a (.call g []) m')) : Stopped ((Value.struct f).toText.run a 0 m) := by
  rw [toText_struct_run]
  refine stopped_bind ?_ _
  rw [bind_ok ((bind_ok hf).trans (by simp only [hg, ↓reduceIte]; rfl)), Script.apply,
    Script.run_request]
  exact hs

/-- The text of a struct over `d` is as good as the text of the tuple. -/
theorem struct_text_stopped {maxDepth fuel : Nat}
    (ht : ∀ i j m, Declared m → Stopped ((plain (maxDepth + 1)).answer fuel 0
      (.call (.method i (.tuple [.struct (.closure j dispatch)]) .text) []) m))
    (j : Nat) {m : Machine} (hm : Declared m) :
    Stopped ((Value.toTexts [.struct (.closure j dispatch)]).run
      ((plain (maxDepth + 1)).answer fuel 0) 0 m) := by
  refine toTexts_stopped ?_
  rcases answer_dispatch maxDepth fuel j hm "str" with ⟨m', hs⟩ | ⟨i', j', m', hm', hr⟩
  · exact toText_struct_stopped_of_dispatch ⟨m', hs⟩
  · exact toText_struct_stopped hr rfl (ht i' j' m' hm')

/-- The text of a tuple that holds a struct over `d` never gets done. -/
theorem tuple_text_stopped (maxDepth fuel i j : Nat) (m : Machine) (hm : Declared m) :
    Stopped ((plain (maxDepth + 1)).answer fuel 0
      (.call (.method i (.tuple [.struct (.closure j dispatch)]) .text) []) m) := by
  induction fuel generalizing i j m with
  | zero => exact ⟨m, rfl⟩
  | succ fuel ih =>
    show Stopped ((Method.text.script (.tuple [.struct (.closure j dispatch)]) []).run _ 0 m)
    rw [Method.script, Value.toText, Script.bind_eq, Script.run_bind, Script.bind_eq,
      Script.run_bind]
    exact stopped_bind (stopped_bind (struct_text_stopped ih j hm) _) _

theorem endless_compiled :
    (endlessTree.compile (Environment.prelude 0).idOf?).toOption = some endlessCode := by
  decide +kernel

theorem endless_built : Program.ofCode endlessCode (.prelude 0) = .ok endless := by
  have hb : Graph.build endlessCode.instructions = .ok endlessGraph := by cbv
  unfold Program.ofCode
  rw [hb]
  rfl

theorem find_own {m : Machine} {a : Activation} (k depth : Nat)
    (hf : a.first = 0) (hs : a.slot? 0 = some (.declared selfText 0 0)) (hm : m.activations.size = 0) :
    (Frame.mk 0 0 depth).find 0 (grown m a k) =
      .ok (.function (.closure k dispatch)) (grown m a (k + 1)) := by
  have ha : (grown m a k).activations[0]? = some a := hm ▸ grown_activation m a k
  show Run.find 0 0 (grown m a k) = _
  rw [Run.find_apply, Machine.holder?, ha]
  simp only [hf, Int32.le_refl, ↓reduceIte]
  rw [Machine.slot?_eq_of_activation ha, hs]
  rfl

theorem endless_run_stopped (maxDepth fuel : Nat) :
    Stopped (endless.run ((plain (maxDepth + 1)).answer fuel 0) .blank) := by
  let h := plain (maxDepth + 1)
  let m : Machine := { Machine.blank with images := #[endless.image] }
  let f : Frame := ⟨0, 0, 0⟩
  let struct : Value := .struct (.closure 0 dispatch)
  let a₀ := Activation.blank none 0 3
  let a₁ := a₀.put 0 (.declared selfText 0 0)
  let a₂ := a₁.put 1 (.value struct)
  have hd (a : Activation) (ha : a.first = 0) (hs : a.slot? 0 = some (.declared selfText 0 0)) (k) :
      Declared (grown m a k) := ⟨rfl, a, grown_activation m a k, ha, hs⟩
  have h₀ : endless.graph.runBlock (h.answer fuel 0) f 0 (grown m a₀ 0) = .ok () (grown m a₁ 0) :=
    put_grown (m := m) (a := a₀) (i := 0) (o := 0) rfl rfl 0 (.declared selfText 0 0)
  suffices hs : Stopped ([1, 2].forM (endless.graph.runBlock (h.answer fuel 0) f) (grown m a₁ 0)) by
    obtain ⟨m', hs⟩ := hs
    refine ⟨m', (bind_ok (show Run.addImage endless.image .blank = .ok 0 m from rfl)).trans ?_⟩
    rw [Graph.run_eq (show endless.graph.result? = some 2 from rfl)]
    exact (bind_ok (enter_apply none 0 3 m)).trans ((bind_ok rfl).trans
      (bind_error ((bind_ok h₀).trans hs)))
  have hcall : runSteps (h.answer fuel 0) f 1 [] [.argument 0, .call (-7)] (grown m a₁ 0) =
      (Script.request (.call (.native Builtin.struct.native)
        [.function (.closure 0 dispatch)])).run (h.answer fuel 0) 0 (grown m a₁ 1) := by
    rw [runSteps, bind_ok (find_own (m := m) (a := a₁) 0 0 rfl rfl rfl), runSteps,
      bind_ok (find_builtin (hd a₁ rfl rfl 1) 0 0 (b := .struct) rfl rfl)]
    rfl
  cases fuel with
  | zero => exact ⟨_, bind_error (bind_error (hcall.trans rfl))⟩
  | succ fuel =>
    have h₁ : endless.graph.runBlock (h.answer (fuel + 1) 0) f 1 (grown m a₁ 0) =
        .ok () (grown m a₂ 1) :=
      (bind_ok (hcall.trans rfl)).trans
        (put_grown (m := m) (a := a₁) (i := 1) (o := 1) rfl rfl 1 (.value struct))
    have hd₂ : Declared (grown m a₂ 1) := hd a₂ rfl rfl 1
    have h01 : (0 : Int32) ≤ 1 := by decide
    have hprint : Stopped ((Builtin.println.script [struct]).run (h.answer fuel 0) 0
        (grown m a₂ 1)) := by
      rw [Builtin.script, Script.bind_eq, Script.run_bind, spacedText, Script.bind_eq,
        Script.run_bind]
      exact stopped_bind (stopped_bind
        (struct_text_stopped (tuple_text_stopped maxDepth fuel) 0 hd₂) _) _
    have h₂ : Stopped (endless.graph.runBlock (h.answer (fuel + 1) 0) f 2 (grown m a₂ 1)) := by
      refine stopped_bind (x := runSteps _ f 2 [] [.argument 1, .call (-5)]) ?_ _
      have hfind : f.find 1 (grown m a₂ 1) = .ok struct (grown m a₂ 1) :=
        find_local (m := m) (a := a₂) (i := 1) (v := struct) 1 0 rfl h01 rfl
      rw [runSteps, bind_ok hfind, runSteps,
        bind_ok (find_builtin hd₂ 0 0 (b := .println) rfl rfl)]
      rwa [show Script.apply (Value.ofBuiltin .println) [struct].reverse =
        Script.request (.call (.native Builtin.println.native) [struct]) from rfl, Script.run_request]
    obtain ⟨m', h₂⟩ := h₂
    exact ⟨m', (bind_ok h₁).trans (bind_error h₂)⟩

/-- **A program that never ends, whatever limit there is on the depth of calls**: the text of a
struct is the text of a tuple that holds the struct. -/
theorem endless_never_ends :
    (endlessTree.compile (Environment.prelude 0).idOf?).toOption = some endlessCode ∧
    Program.ofCode endlessCode (.prelude 0) = .ok endless ∧
    ∀ maxDepth r, ¬ (plain (maxDepth + 1)).EndsWith endless .blank r := by
  refine ⟨endless_compiled, endless_built, fun maxDepth r => ?_⟩
  rintro ⟨hr, fuel, he⟩
  exact hr (he ▸ endless_run_stopped maxDepth fuel)

end Host

end Dataflow
