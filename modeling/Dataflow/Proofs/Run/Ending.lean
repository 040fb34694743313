import Dataflow.Proofs.Graph.WellFormed
import Dataflow.Proofs.Run.Lookup
import Dataflow.Proofs.Run.Nesting
import Dataflow.Proofs.Run.Surroundings
import Dataflow.Proofs.Value.Equality

/-!
# Programs without structs end

Structs are the only values that call back into a program when their text is asked for or when they
are compared. Where there are none, methods ask for nothing at all, so one open method is enough at
every depth of calls, and the limit on this depth cuts off every recursion.

* `Graph.mem_of_build`: a graph has no instructions but those that it was built from;
* `Value.Structless`, `Machine.Structless`: there are no structs, and nothing can make one;
* `Run.Halts`: a computation ends on machines without structs, and leaves one behind;
* **`Method.script_immediate`**: methods ask for nothing;
* `Host.answerWithin_ends`: requests end with one open method at every depth;
* **`Host.ends_of_structless`**: programs that name no built-in value with a struct end;
* **`Host.ends_of_not_struct`**: programs that do not name the built-in `struct` end.
-/

namespace Dataflow

open Run

/-! ## The instructions of a graph -/

namespace Segment

theorem code_subset_codes {p : Segment} {ps : List Segment} (h : p ∈ ps) : p.code ⊆ codes ps := by
  induction ps with
  | nil => cases h
  | cons q ps ih =>
    rw [codes]
    rcases List.mem_cons.mp h with rfl | h
    · exact List.subset_append_left _ _
    · exact List.subset_append_of_subset_right _ (ih h)

mutual

theorem codes_subset_code {qs : List Segment} (p : Segment) (h : qs ∈ inner p) :
    codes qs ⊆ p.code := by
  cases p with
  | value args i =>
    rw [inner] at h
    cases h
  | function params body =>
    rw [inner] at h
    have hbody : codes body ⊆ (function params body).code := by
      rw [code]
      exact List.subset_append_of_subset_left _ (List.subset_cons_self _ _)
    rcases List.mem_cons.mp h with rfl | h
    · exact hbody
    · exact List.Subset.trans (codes_subset_codes body h) hbody

theorem codes_subset_codes {qs : List Segment} (ps : List Segment) (h : qs ∈ allInner ps) :
    codes qs ⊆ codes ps := by
  cases ps with
  | nil =>
    rw [allInner] at h
    cases h
  | cons p ps =>
    rw [allInner] at h
    rw [codes]
    rcases List.mem_append.mp h with h | h
    · exact List.subset_append_of_subset_left _ (codes_subset_code p h)
    · exact List.subset_append_of_subset_right _ (codes_subset_codes ps h)

end

end Segment

/-- A graph has no instructions but those that it was built from. -/
theorem Graph.mem_of_build {is js : List Instruction} {g l : Graph} {id : ValueId}
    (h : Graph.build is = .ok g) (hl : l ∈ g.levels) (hb : .steps id js ∈ l.blocks)
    {i : Instruction} (hi : i ∈ js) : i ∈ is := by
  obtain ⟨n, hn⟩ := List.mem_iff_getElem?.mp hl
  obtain ⟨qs, hqs, hlays⟩ := exists_lays h hn
  obtain ⟨args, i', hp, -, rfl⟩ := hlays.steps hb
  have hvalue : i ∈ Segment.codes qs := Segment.code_subset_codes hp (by rwa [Segment.code])
  rw [← (lays_of_build h).1]
  rcases List.mem_cons.mp (List.mem_of_getElem? hqs) with rfl | hqs
  · exact hvalue
  · exact Segment.codes_subset_codes _ hqs hvalue

/-- The instructions of a graph, and of the functions in it, name only some built-in values. -/
def Graph.NamesOnly (Q : ValueId → Prop) (g : Graph) : Prop :=
  ∀ l ∈ g.levels, ∀ id is, Block.steps id is ∈ l.blocks → ∀ i ∈ is, ∀ a, i.operand? = some a →
    a.isBuiltin = true → Q a

theorem Graph.NamesOnly.body {Q : ValueId → Prop} {g body : Graph} {j : Nat} {id : ValueId}
    (h : g.NamesOnly Q) (hb : g.blocks[j]? = some (.function id body)) : body.NamesOnly Q :=
  fun l hl => h l (mem_levels_of_body hb hl)

/-! ## Values and machines without structs -/

mutual

/-- There is no struct in a value, and nothing in it can make one: not the built-in function, and no
closure that names other built-in values than those that are admitted. -/
inductive Value.Structless (Q : ValueId → Prop) : Value → Prop where
  | unit : Value.Structless Q .unit
  | bool (b : Bool) : Value.Structless Q (.bool b)
  | int (n : Int64) : Value.Structless Q (.int n)
  | float (x : Float) : Value.Structless Q (.float x)
  | str (s : String) : Value.Structless Q (.str s)
  | tuple {items : List Value} (h : ∀ v ∈ items, Value.Structless Q v) :
    Value.Structless Q (.tuple items)
  | function {f : Function} (h : f.Structless Q) : Value.Structless Q (.function f)
  | library (identity : Nat) (name : String) {symbols : List (String × Value)}
    (h : ∀ s ∈ symbols, Value.Structless Q s.2) :
    Value.Structless Q (.library identity name symbols)

/-- The same of a function. -/
inductive Function.Structless (Q : ValueId → Prop) : Function → Prop where
  | native {n : Native} (h : n.body ≠ .builtin .struct) : Function.Structless Q (.native n)
  | method (identity : Nat) {receiver : Value} (m : Method) (h : receiver.Structless Q) :
    Function.Structless Q (.method identity receiver m)
  | closure (identity : Nat) {c : Closure} (h : c.graph.NamesOnly Q) :
    Function.Structless Q (.closure identity c)

end

/-- The same of what an activation keeps. -/
def Slot.Structless (Q : ValueId → Prop) : Slot → Prop
  | .value v => v.Structless Q
  | .declared graph _ _ => graph.NamesOnly Q

/-- The same of all that is kept on a machine, and of the built-in values that may be named. -/
structure Machine.Structless (Q : ValueId → Prop) (m : Machine) : Prop where
  environments : ∀ {unit : Nat} {image : Image} {id v}, m.images[unit]? = some image → Q id →
    image.environment.get? id = some v → v.Structless Q
  slots : ∀ {scope id s}, m.slot? scope id = some s → s.Structless Q

section Values

variable {Q : ValueId → Prop} {m : Machine}

theorem Value.Structless.of_isNumber {v : Value} (h : v.IsNumber) : v.Structless Q := by
  obtain ⟨n, rfl⟩ | ⟨x, rfl⟩ := h
  · exact .int n
  · exact .float x

theorem Value.Structless.getD {vs : List Value} (hs : ∀ v ∈ vs, v.Structless Q) (i : Nat) :
    (vs.getD i .unit).Structless Q := by
  rw [List.getD_eq_getElem?_getD]
  cases hi : vs[i]? with
  | none => exact .unit
  | some v => exact hs v (List.mem_of_getElem? hi)

mutual

theorem Value.Structless.contains_eq (v : Value) (h : v.Structless Q) :
    v.contains .struct = false := by
  cases h with
  | tuple h => exact containsAny_eq_of_structless _ h
  | _ => rfl

theorem Value.containsAny_eq_of_structless (vs : List Value) (hs : ∀ v ∈ vs, v.Structless Q) :
    containsAny .struct vs = false := by
  cases vs with
  | nil => rfl
  | cons v vs =>
    rw [containsAny, Value.Structless.contains_eq v (hs v List.mem_cons_self),
      containsAny_eq_of_structless vs fun w hw => hs w (List.mem_cons_of_mem _ hw)]
    rfl

end

theorem Constant.structless_value? {c : Constant} {v : Value} (h : c.value? = some v) :
    v.Structless Q := by
  unfold Constant.value? at h
  split at h <;> obtain ⟨x, -, rfl⟩ := Option.map_eq_some_iff.mp h
  · exact .int x
  · exact .float x
  · exact .str x

theorem Slot.structless_keep {v : Value} (h : v.Structless Q) (scope : Nat) :
    (Slot.keep scope v).Structless Q := by
  unfold Slot.keep
  split
  · split
    · cases h with
      | function hf =>
        cases hf with
        | closure _ hc => exact hc
    · exact h
  · exact h

namespace Machine

/-- Machines with the same images and other activations that keep as good values. -/
theorem Structless.of_slots {m' : Machine} (h : m.Structless Q) (hi : m'.images = m.images)
    (hs : ∀ {scope id s}, m'.slot? scope id = some s → s.Structless Q) : m'.Structless Q :=
  ⟨fun hu => h.environments (hi ▸ hu), hs⟩

theorem Structless.store (h : m.Structless Q) {scope o : Nat} {a : Activation} {id : ValueId}
    (ha : m.activations[scope]? = some a) (ho : a.offset? id = some o) {s : Slot}
    (hs : s.Structless Q) : (m.store scope o s).Structless Q := by
  refine h.of_slots rfl fun {scope' id' s'} hslot => ?_
  rw [slot?_store ha ho] at hslot
  split at hslot
  · cases hslot
    exact hs
  · exact h.slots hslot

theorem Structless.grow (h : m.Structless Q) (parent : Option Nat) (first : ValueId)
    (count : Nat) : (m.grow (.blank parent first count)).Structless Q := by
  refine h.of_slots rfl fun {scope id s} hslot => ?_
  rw [slot?_grow] at hslot
  split at hslot
  · rw [Activation.slot?_blank] at hslot
    cases hslot
  · exact h.slots hslot

theorem Structless.addImage (h : m.Structless Q) {image : Image}
    (he : ∀ {id v}, Q id → image.environment.get? id = some v → v.Structless Q) :
    ({ m with images := m.images.push image } : Machine).Structless Q := by
  refine ⟨fun {unit image' id v} hu hq hv => ?_, h.slots⟩
  rw [Array.getElem?_push] at hu
  split at hu
  · cases hu
    exact he hq hv
  · exact h.environments hu hq hv

end Machine

theorem Machine.structless_blank : Machine.blank.Structless Q :=
  ⟨fun h => by simp [blank] at h, fun h => by simp [blank, slot?] at h⟩

end Values

/-! ## Computations that end -/

namespace Run

variable {α β : Type}

/-- A result on a machine without structs that was not stopped from outside. Answers are of the kind
`P`. -/
inductive Halted (Q : ValueId → Prop) (P : α → Prop) : EStateM.Result Stop Machine α → Prop where
  | ok {a : α} {m : Machine} (hm : m.Structless Q) (ha : P a) : Halted Q P (.ok a m)
  | error (e : RunError) {m : Machine} (hm : m.Structless Q) : Halted Q P (.error (.error e) m)

/-- A computation that ends on machines without structs. -/
def Halts (Q : ValueId → Prop) (P : α → Prop) (x : Run α) : Prop :=
  ∀ ⦃m⦄, m.Structless Q → Halted Q P (x m)

namespace Halts

variable {Q : ValueId → Prop} {P : α → Prop} {R : β → Prop} {x : Run α}

theorem pure {a : α} (ha : P a) : Halts Q P (pure a) := fun _ hm => .ok hm ha

theorem fail (e : RunError) : Halts Q P (fail e : Run α) := fun _ hm => .error e hm

theorem bind {f : α → Run β} (hx : Halts Q P x) (hf : ∀ a, P a → Halts Q R (f a)) :
    Halts Q R (x >>= f) := by
  intro m hm
  have h := hx hm
  rw [bind_apply]
  generalize x m = r at h ⊢
  cases h with
  | ok hm ha => exact hf _ ha hm
  | error e hm => exact .error e hm

/-- A computation whose error is seen. -/
theorem attempt (hx : Halts Q P x) : Halts Q (fun r => ∀ a, r = .ok a → P a) x.attempt := by
  intro m hm
  have h := hx hm
  rw [attempt_apply]
  generalize x m = r at h ⊢
  cases h with
  | ok hm ha => exact .ok hm fun a he => Except.ok.inj he ▸ ha
  | error e hm => exact .ok hm fun a he => by cases he

theorem forM {γ : Type} {f : γ → Run PUnit} (hf : ∀ c, Halts Q (fun _ => True) (f c))
    (cs : List γ) : Halts Q (fun _ => True) (cs.forM f) := by
  induction cs with
  | nil => exact pure trivial
  | cons c cs ih => exact bind (hf c) fun _ _ => ih

theorem ofExcept (y : Except RunError α) (h : ∀ a, y = .ok a → P a) : Halts Q P (ofExcept y) := by
  cases y with
  | ok a => exact pure (h a rfl)
  | error e => exact fail e

/-! ### Operations -/

theorem fresh : Halts Q (fun _ => True) fresh :=
  fun _ hm => .ok (hm.of_slots rfl hm.slots) trivial

theorem print (text : String) : Halts Q (fun _ => True) (print text) :=
  fun _ hm => .ok (hm.of_slots rfl hm.slots) trivial

theorem addImage {image : Image}
    (he : ∀ {id v}, Q id → image.environment.get? id = some v → v.Structless Q) :
    Halts Q (fun _ => True) (addImage image) := fun _ hm => .ok (hm.addImage he) trivial

theorem enter (parent : Option Nat) (first : ValueId) (count : Nat) :
    Halts Q (fun _ => True) (enter parent first count) :=
  fun _ hm => .ok (hm.grow parent first count) trivial

theorem put (scope : Nat) (id : ValueId) {s : Slot} (hs : s.Structless Q) :
    Halts Q (fun _ => True) (put scope id s) := by
  intro m hm
  cases hr : Run.put scope id s m with
  | ok u m' =>
    obtain ⟨a, o, ha, ho, -, rfl⟩ := put_eq_ok_iff.mp hr
    exact .ok (hm.store ha ho hs) trivial
  | error e m' =>
    unfold Run.put at hr
    split at hr
    · cases hr
      exact .error _ hm
    · split at hr
      · cases hr
        exact .error _ hm
      · cases hr

theorem read (scope : Nat) (id : ValueId) :
    Halts Q (fun v => ∀ w, v = some w → w.Structless Q) (read scope id) := by
  intro m hm
  rw [read_apply]
  cases hs : m.slot? scope id with
  | none => exact .ok hm nofun
  | some s =>
    have hslot := hm.slots hs
    cases s with
    | value v => exact .ok hm fun w hw => Option.some.inj hw ▸ hslot
    | declared graph unit id' =>
      refine .ok (hm.of_slots rfl hm.slots) fun w hw => ?_
      cases hw
      exact .function (.closure _ hslot)

theorem find (scope : Nat) (id : ValueId) :
    Halts Q (Value.Structless Q) (find scope id) := by
  intro m hm
  rw [find_apply]
  cases m.holder? id scope with
  | none => exact .error _ hm
  | some holder =>
    dsimp only
    cases hs : m.slot? holder id with
    | none => exact .error _ hm
    | some s =>
      have hslot := hm.slots hs
      cases s with
      | value v => exact .ok hm hslot
      | declared graph unit id' =>
        exact .ok (hm.of_slots rfl hm.slots) (.function (.closure _ hslot))

theorem bindArguments (scope : Nat) (id : ValueId) {args : List Value}
    (h : ∀ v ∈ args, v.Structless Q) : Halts Q (fun _ => True) (bindArguments scope id args) := by
  induction args generalizing id with
  | nil => exact pure trivial
  | cons v vs ih =>
    exact (put scope id (Slot.structless_keep (h v List.mem_cons_self) scope)).bind fun _ _ =>
      ih (id + 1) fun w hw => h w (List.mem_cons_of_mem _ hw)

end Halts

end Run

section Frames

variable {Q : ValueId → Prop}

theorem Frame.find_ends (f : Frame) {id : ValueId} (hq : id.isBuiltin = true → Q id) :
    Halts Q (Value.Structless Q) (f.find id) := by
  by_cases hb : id.isBuiltin = true
  · intro m hm
    rw [f.find_of_isBuiltin hb, Array.getD_eq_getD_getElem?]
    cases hu : m.images[f.unit]? with
    | none =>
      have hnone : (default : Environment).get? id = none := Environment.get?_empty id
      rw [show ((none : Option Image).getD default).environment = default from rfl, hnone]
      exact .error _ hm
    | some image =>
      rw [Option.getD_some]
      cases hv : image.environment.get? id with
      | none => exact .error _ hm
      | some v => exact .ok hm (hm.environments hu (hq hb) hv)
  · have hfind : f.find id = Run.find f.scope id := by
      unfold Frame.find
      rw [if_neg hb]
    rw [hfind]
    exact .find f.scope id

theorem Frame.constant_ends (f : Frame) (id : ConstantId) :
    Halts Q (Value.Structless Q) (f.constant id) := by
  intro m hm
  rw [f.constant_apply]
  cases (m.images.getD f.unit default).constants[id.toNat]? with
  | none => exact .error _ hm
  | some c =>
    cases hv : c.value? with
    | none =>
      simp only [hv]
      exact .error _ hm
    | some v =>
      simp only [hv]
      exact .ok hm (Constant.structless_value? hv)

theorem Frame.fieldName_ends (f : Frame) (id : ConstantId) :
    Halts Q (fun _ => True) (f.fieldName id) := by
  refine (f.constant_ends id).bind fun v _ => ?_
  split
  · exact .pure trivial
  · exact .fail _

end Frames

/-! ## Scripts -/

/-- A request without structs. -/
def Request.Structless (Q : ValueId → Prop) : Request → Prop
  | .call f args => f.Structless Q ∧ ∀ v ∈ args, v.Structless Q
  | .load _ => True

/-- As long as it is answered without structs, a script asks without structs, and it comes to
something of the kind `T`. -/
def Script.Structless (Q : ValueId → Prop) {α : Type} (T : α → Prop) : Script α → Prop
  | done a => T a
  | fail _ => True
  | ask r next => r.Structless Q ∧
    ∀ x, (∀ v, x = .ok v → v.Structless Q) → (next x).Structless Q T
  | print _ next => next.Structless Q T
  | mint next | depth next => ∀ n, (next n).Structless Q T

section Scripts

variable {Q : ValueId → Prop} {α β : Type} {T : α → Prop} {U : β → Prop}

namespace Script

theorem Structless.bind {s : Script α} {f : α → Script β} (hs : s.Structless Q T)
    (hf : ∀ a, T a → (f a).Structless Q U) : (s.bind f).Structless Q U := by
  induction s with
  | done a => exact hf a hs
  | fail _ => trivial
  | ask r next ih => exact ⟨hs.1, fun x hx => ih x (hs.2 x hx)⟩
  | print text next ih => exact ih hs
  | mint next ih | depth next ih => exact fun n => ih n (hs n)

theorem structless_ofExcept {x : Except RunError α} (h : ∀ a, x = .ok a → T a) :
    (ofExcept x).Structless Q T := by
  cases x with
  | ok a => exact h a rfl
  | error e => trivial

theorem structless_request {r : Request} (hr : r.Structless Q) :
    (request r).Structless Q (Value.Structless Q) := ⟨hr, fun _ hx => structless_ofExcept hx⟩

theorem structless_apply {callee : Value} {args : List Value} (hc : callee.Structless Q)
    (hs : ∀ v ∈ args, v.Structless Q) : (apply callee args).Structless Q (Value.Structless Q) := by
  cases hc with
  | function hf => exact structless_request ⟨hf, hs⟩
  | _ => trivial

/-- A script runs without structs if its requests end; they are of the kind `P`. -/
theorem Structless.run_ends {P : Request → Prop} {answer : Request → Run Value}
    (ha : ∀ r, r.Structless Q → P r → Halts Q (Value.Structless Q) (answer r)) (level : Nat)
    {s : Script α} (hs : s.Structless Q T) (hp : s.Asks P) : Halts Q T (s.run answer level) := by
  induction s with
  | done a => exact .pure hs
  | fail e => exact .fail e
  | ask r next ih =>
    exact (ha r hs.1 hp.1).attempt.bind fun x hx => ih x (hs.2 x hx) (hp.2 x)
  | print text next ih => exact (Halts.print text).bind fun _ _ => ih hs hp
  | mint next ih => exact Halts.fresh.bind fun n _ => ih n (hs n) (hp n)
  | depth next ih => exact ih level (hs level) (hp level)

end Script

open Script

namespace Value.Structless

variable {v : Value}

theorem bindMethod (hv : v.Structless Q) (m : Method) :
    (v.bindMethod m).Structless Q (Value.Structless Q) := fun n => .function (.method n m hv)

theorem staticField (hv : v.Structless Q) (name : String) :
    (v.staticField name).Structless Q fun field => ∀ w, field = some w → w.Structless Q := by
  unfold Value.staticField
  split
  · cases hv with
    | library _ _ hs =>
      intro w hw
      obtain ⟨before, after, rfl, -⟩ := List.lookup_eq_some_iff.mp hw
      exact hs (name, w) (by simp)
  · split
    · exact (hv.bindMethod _).bind fun w hw w' he => Option.some.inj he ▸ hw
    · exact nofun

theorem field (hv : v.Structless Q) (name : String) :
    (v.field name).Structless Q (Value.Structless Q) := by
  unfold Value.field
  split
  · cases hv
  · refine (hv.staticField name).bind fun field hf => ?_
    split
    · exact hf _ rfl
    · split
      · exact hv.bindMethod _
      · trivial

theorem select (hv : v.Structless Q) (name : String) (form : Form) :
    (v.select name form).Structless Q (Value.Structless Q) := by
  refine (hv.field name).bind fun field hf => ?_
  split
  · split
    · exact hf
    · trivial
  · exact hf

end Value.Structless

/-- A script that asks for nothing: it comes to a value without structs at once, or fails. -/
def Script.Immediate (Q : ValueId → Prop) (s : Script Value) : Prop :=
  ∃ x : Except RunError Value, s = .ofExcept x ∧ ∀ v, x = .ok v → v.Structless Q

namespace Script.Immediate

theorem done {v : Value} (hv : v.Structless Q) : Immediate Q (.done v) :=
  ⟨.ok v, rfl, fun _ he => Except.ok.inj he ▸ hv⟩

theorem fail (e : RunError) : Immediate Q (.fail e) := ⟨.error e, rfl, fun _ he => by cases he⟩

theorem arithmetic {name : String} {ints : Int64 → Int64 → Except RunError Value}
    {floats : Float → Float → Except RunError Value}
    (hi : ∀ {a b v}, ints a b = .ok v → v.Structless Q)
    (hf : ∀ {x y v}, floats x y = .ok v → v.Structless Q) (a b : Value) :
    Immediate Q (arithmetic name ints floats a b) := by
  refine ⟨_, rfl, fun v hv => ?_⟩
  cases ho : operands name a b with
  | error e =>
    rw [ho] at hv
    cases hv
  | ok o =>
    rw [ho] at hv
    cases o with
    | ints a b => exact hi hv
    | floats x y => exact hf hv

end Script.Immediate

/-- **Where there are no structs, methods ask for nothing.** -/
theorem Method.script_immediate (m : Method) {v : Value} (hv : v.Structless Q) (args : List Value) :
    (m.script v args).Immediate Q := by
  have number {w : Value} (h : w.IsNumber) : w.Structless Q := .of_isNumber h
  have float {x : Float} {w : Value} (h : Except.ok (Value.float x) = (.ok w : Except RunError _)) :
      w.Structless Q := Except.ok.inj h ▸ .float x
  have bool {b : Bool} {w : Value} (h : Except.ok (Value.bool b) = (.ok w : Except RunError _)) :
      w.Structless Q := Except.ok.inj h ▸ .bool b
  have hequals : v.equals (args.headD .unit) = .done (v.hostEq (args.headD .unit)) :=
    Value.equals_of_plain hv.contains_eq _
  cases m with
  | add | mul => exact .arithmetic (fun h => number (checked_isNumber h)) float _ _
  | sub =>
    rw [script]
    split
    · cases hv with
      | int a => exact ⟨_, rfl, fun w h => number (checked_isNumber h)⟩
      | float x => exact .done (.float _)
      | _ => exact .fail _
    · exact .arithmetic (fun h => number (checked_isNumber h)) float _ _
  | div =>
    exact .arithmetic (fun h => number (intDiv_isNumber h))
      (fun h => number (floatDiv_isNumber h)) _ _
  | rem =>
    exact .arithmetic (fun h => number (intRem_isNumber h))
      (fun h => number (floatMod_isNumber h)) _ _
  | lt | gt | le | ge => exact .arithmetic bool bool _ _
  | not =>
    cases hv with
    | bool b => exact .done (.bool _)
    | _ => exact .fail _
  | and | or =>
    unfold script logic
    dsimp only
    split
    · exact .done (.bool _)
    · exact .fail _
    · exact .fail _
  | concat =>
    unfold script
    dsimp only
    split
    · exact .done (.str _)
    · exact .fail _
    · exact .fail _
  | textLength =>
    cases hv with
    | str s => exact .done (.int _)
    | _ => exact .fail _
  | tupleLength =>
    cases hv with
    | tuple h => exact .done (.int _)
    | _ => exact .fail _
  | tupleGet =>
    unfold script itemAt
    dsimp only
    split
    · cases hv with
      | tuple h =>
        split
        · rename_i w hw
          split at hw
          · exact .done (h w (List.mem_of_getElem? hw))
          · cases hw
        · exact .fail _
    · exact .fail _
  | text =>
    rw [script, Value.toText_of_plain hv.contains_eq]
    exact .done (.str _)
  | equal | differ =>
    rw [script, hequals]
    exact .done (.bool _)

theorem structless_spacedText {args : List Value} (hs : ∀ v ∈ args, v.Structless Q) :
    (spacedText args).Structless Q fun _ => True := by
  rw [spacedText, Value.toTexts_of_plain (Value.containsAny_eq_of_structless args hs)]
  trivial

/-- All built-in functions but `struct` keep to values without structs. -/
theorem Builtin.structless_script {b : Builtin} (hb : b ≠ .struct) {args : List Value}
    (hs : ∀ v ∈ args, v.Structless Q) : (b.script args).Structless Q (Value.Structless Q) := by
  have harg := Value.Structless.getD hs
  have number {x : Except RunError Value} (h : ∀ {w}, x = .ok w → w.IsNumber) :
      (Script.ofExcept x).Structless Q (Value.Structless Q) :=
    structless_ofExcept fun _ hw => .of_isNumber (h hw)
  cases b with
  | print | println => exact (structless_spacedText hs).bind fun _ _ => .unit
  | choose =>
    unfold script
    dsimp only
    split <;> exact structless_apply (harg _) nofun
  | struct => exact absurd rfl hb
  | tuple => exact .tuple hs
  | load =>
    unfold script
    dsimp only
    split <;> exact structless_request trivial
  | sqrt => exact .float _
  | abs =>
    unfold script
    dsimp only
    split
    · exact number checked_isNumber
    · exact .float _
  | floor =>
    unfold script
    dsimp only
    split
    · exact .int _
    · exact .float _
  | pow =>
    unfold script
    dsimp only
    split
    · split
      · exact number intPow_isNumber
      · exact .float _
    · exact .float _
  | min | max =>
    unfold script
    dsimp only
    split
    · exact .int _
    · exact .float _

end Scripts

/-! ## Graphs -/

section Graphs

variable {Q : ValueId → Prop} {answer : Request → Run Value}

/-- The requests that instructions make are answered, and the answers are without structs. -/
theorem runSteps_ends (ha : ∀ r, r.Structless Q → Halts Q (Value.Structless Q) (answer r))
    (f : Frame) (id : ValueId) {args : List Value} (hargs : ∀ v ∈ args, v.Structless Q)
    {is : List Instruction}
    (his : ∀ i ∈ is, ∀ a, i.operand? = some a → a.isBuiltin = true → Q a) :
    Halts Q (Value.Structless Q) (runSteps answer f id args is) := by
  have script {s : Script Value} (hs : s.Structless Q (Value.Structless Q)) :
      Halts Q (Value.Structless Q) (s.run answer f.depth) :=
    hs.run_ends (fun r hr _ => ha r hr) f.depth s.asks_any
  fun_induction runSteps answer f id args is with
  | case1 args a rest ih =>
    refine (f.find_ends (his _ List.mem_cons_self a rfl)).bind fun v hv => ih v ?_ ?_
    · exact List.forall_mem_cons.mpr ⟨hv, hargs⟩
    · exact fun i hi => his i (List.mem_cons_of_mem _ hi)
  | case2 args callee rest =>
    refine (f.find_ends (his _ List.mem_cons_self callee rfl)).bind fun v hv => ?_
    exact script (Script.structless_apply hv fun w hw => hargs w (List.mem_reverse.mp hw))
  | case3 args c rest => exact f.constant_ends c
  | case4 args value name form rest =>
    refine (f.find_ends (his _ List.mem_cons_self value rfl)).bind fun v hv => ?_
    exact (f.fieldName_ends name).bind fun text _ => script (hv.select text form)
  | case5 args a rest => exact f.find_ends (his _ List.mem_cons_self a rfl)
  | case6 => exact .fail _

theorem Block.run_ends (ha : ∀ r, r.Structless Q → Halts Q (Value.Structless Q) (answer r))
    (f : Frame) {g : Graph} (hg : g.NamesOnly Q) {i : Nat} {b : Block}
    (hb : g.blocks[i]? = some b) : Halts Q (fun _ => True) (b.run answer f) := by
  cases b with
  | function id body => exact .put f.scope id (hg.body hb)
  | steps id is =>
    have hsteps : Halts Q (Value.Structless Q) (runSteps answer f id [] is) :=
      runSteps_ends ha f id (List.forall_mem_nil _)
        (hg g g.self_mem_levels id is (List.mem_of_getElem? hb))
    exact hsteps.bind fun v hv => .put f.scope id (Slot.structless_keep hv f.scope)

theorem Graph.run_ends (ha : ∀ r, r.Structless Q → Halts Q (Value.Structless Q) (answer r))
    {g : Graph} (hg : g.NamesOnly Q) (unit depth : Nat) (parent : Option Nat) {args : List Value}
    (hargs : ∀ v ∈ args, v.Structless Q) :
    Halts Q (Value.Structless Q) (g.run answer unit depth parent args) := by
  cases hres : g.result? with
  | none =>
    have hrun : g.run answer unit depth parent args = Run.fail .emptyBody := by
      unfold Graph.run
      simp only [hres]
    rw [hrun]
    exact .fail _
  | some result =>
    rw [Graph.run_eq hres]
    refine (Halts.enter parent g.first g.slotCount).bind fun scope _ => ?_
    refine (Halts.bindArguments scope g.first hargs).bind fun _ _ => ?_
    refine (Halts.forM (fun i => ?_) _).bind fun _ _ => ?_
    · unfold Graph.runBlock
      split
      case h_1 b hb => exact Block.run_ends ha ⟨unit, scope, depth⟩ hg hb
      case h_2 => exact .pure trivial
    · unfold Graph.conclude
      split
      · refine (Halts.read scope result).bind fun v hv => ?_
        split
        · exact .pure (hv _ rfl)
        · exact .fail _
      · exact .fail _

end Graphs

/-! ## Programs -/

namespace Host

variable {Q : ValueId → Prop}

theorem structless_scriptOf (maxDepth : Nat) {n : Native} (hn : n.body ≠ .builtin .struct)
    {args : List Value} (hs : ∀ v ∈ args, v.Structless Q) :
    ((plain maxDepth).scriptOf n args).Structless Q (Value.Structless Q) := by
  unfold scriptOf
  split
  · rename_i b hb
    exact Builtin.structless_script (fun he => hn (he ▸ hb)) hs
  · exact .unit

/-- **Requests without structs end, with one open method at every depth of calls.** -/
theorem answerWithin_ends (maxDepth depth methods natives : Nat) (hm : 0 < methods) {r : Request}
    (hr : r.Structless Q) (hf : Fits natives r) :
    Halts Q (Value.Structless Q) ((plain maxDepth).answerWithin 1 depth methods natives r) := by
  have check (x : Except RunError Unit) : Halts Q (fun _ => True) (Run.ofExcept x) :=
    .ofExcept x fun _ _ => trivial
  fun_induction (plain maxDepth).answerWithin 1 depth methods natives r with
  | case1 => simp [Fits, openNatives] at hf
  | case2 depth methods n args natives ih =>
    obtain ⟨hn, hs⟩ := hr
    cases hn with
    | native hn =>
      refine (check _).bind fun _ _ => ?_
      exact (structless_scriptOf maxDepth hn hs).run_ends (fun r hr hf => ih r hm hr hf) depth
        (scriptOf_asks_fits maxDepth natives n hf)
  | case3 => exact absurd hm (Nat.lt_irrefl 0)
  | case4 depth natives identity receiver m args methods =>
    obtain ⟨hv, hs⟩ := hr
    cases hv with
    | method _ _ hv =>
      obtain ⟨x, hx, hT⟩ := m.script_immediate hv args
      refine (check _).bind fun _ _ => ?_
      rw [hx]
      exact (Script.structless_ofExcept hT).run_ends (P := fun _ => False)
        (fun _ _ hfalse => hfalse.elim) depth (Script.ofExcept_asks _ x)
  | case5 => exact .fail _
  | case6 depth methods natives identity c args hc hd ih =>
    obtain ⟨hv, hs⟩ := hr
    cases hv with
    | closure _ hg =>
      exact Graph.run_ends (fun r hr => ih r Nat.one_pos hr (fits_openNatives r)) hg _ _ _ hs
  | case7 => exact .fail _
  | case8 => exact .fail _

/-- **A program ends whatever limit there is on the depth of calls**, with a value or with an error,
if there are no structs on the machine and none in the built-in values that it names, nor the
function that makes them. -/
theorem ends_of_structless (maxDepth : Nat) {p : Program} {m : Machine}
    (hp : p.graph.NamesOnly Q)
    (he : ∀ {id v}, Q id → p.environment.get? id = some v → v.Structless Q)
    (hm : m.Structless Q) : ∃ r, (plain maxDepth).EndsWith p m r := by
  have hrun : Halts Q (Value.Structless Q)
      (p.run ((plain maxDepth).answerWithin 1 0 1 openNatives)) :=
    (Halts.addImage he).bind fun unit _ => Graph.run_ends
      (fun r hr => answerWithin_ends maxDepth 0 1 openNatives Nat.one_pos hr (fits_openNatives r))
      hp unit 0 none nofun
  refine ⟨_, (endsWith_iff_endsWithin maxDepth p m _).mpr ⟨?_, 1, rfl⟩⟩
  rintro ⟨m', hstopped⟩
  have hended := hrun hm
  rw [hstopped] at hended
  cases hended

end Host

/-! ## The standard environment -/

section Prelude

variable {Q : ValueId → Prop}

theorem Value.structless_ofBuiltin {b : Builtin} (hb : b ≠ .struct) :
    (ofBuiltin b).Structless Q :=
  .function (.native fun he => hb (Native.Body.builtin.inj he))

theorem Value.structless_mathLibrary (identity : Nat) : (mathLibrary identity).Structless Q := by
  refine .library identity "math" fun s hs => ?_
  rcases List.mem_append.mp hs with hs | hs
  · simp only [List.mem_cons, List.not_mem_nil, or_false] at hs
    rcases hs with rfl | rfl <;> exact .float _
  · obtain ⟨b, hb, rfl⟩ := List.mem_map.mp hs
    refine structless_ofBuiltin ?_
    rintro rfl
    simp at hb

/-- What is not called `struct` in the standard environment cannot make structs. -/
theorem Environment.structless_of_mem_prelude {identity : Nat} {entry : String × Value}
    (he : entry ∈ (prelude identity).entries) (hn : entry.1 ≠ "struct") :
    entry.2.Structless Q := by
  rcases List.mem_append.mp he with he | he
  · rcases List.mem_append.mp he with he | he
    · simp only [List.mem_cons, List.not_mem_nil, or_false] at he
      rcases he with rfl | rfl | rfl
      · exact .bool true
      · exact .bool false
      · exact .unit
    · obtain ⟨b, -, rfl⟩ := List.mem_map.mp he
      refine Value.structless_ofBuiltin ?_
      rintro rfl
      exact hn rfl
  · obtain rfl := List.mem_singleton.mp he
    exact Value.structless_mathLibrary identity

end Prelude

namespace Host

/-- **A program in the standard environment that does not name `struct` ends**, whatever limit there
is on the depth of calls. -/
theorem ends_of_not_struct (maxDepth identity : Nat) {code : Code} {p : Program}
    (hp : Program.ofCode code (.prelude identity) = .ok p)
    (hc : ∀ i ∈ code.instructions, ∀ a, i.operand? = some a →
      (Environment.prelude identity).nameOf? a ≠ some "struct") :
    ∃ r, (plain maxDepth).EndsWith p .blank r := by
  obtain ⟨g, hg, rfl⟩ : ∃ g, Graph.build code.instructions = .ok g ∧
      p = ⟨code, g, .prelude identity⟩ := by
    unfold Program.ofCode at hp
    split at hp
    · cases hp
      exact ⟨_, ‹_›, rfl⟩
    · cases hp
  refine ends_of_structless maxDepth (Q := fun a =>
    (Environment.prelude identity).nameOf? a ≠ some "struct") ?_ ?_ Machine.structless_blank
  · exact fun l hl id is hb i hi a ha _ => hc i (Graph.mem_of_build hg hl hb hi) a ha
  · intro id v hid hv
    obtain ⟨entry, hentry, rfl⟩ := Option.map_eq_some_iff.mp hv
    have hn : entry.1 ≠ "struct" := fun he => hid (by
      rw [Environment.nameOf?, hentry, Option.map_some, he])
    obtain ⟨index, -, hi⟩ := Option.bind_eq_some_iff.mp hentry
    exact Environment.structless_of_mem_prelude (List.mem_of_getElem? hi) hn

/-- The unit of the statements `fn f(): if(true, f, f)` and `f()`. -/
def recurringCode : Code :=
  ⟨.zero, [], [.enter 0, .argument (-1), .argument 0, .argument 0, .call (-6), .leave, .call 0]⟩

/-- The graph of these statements. -/
def recurringGraph : Graph :=
  ⟨0, 0, [.function 0 ⟨1, 0, [.steps 1 [.argument (-1), .argument 0, .argument 0, .call (-6)]],
    [[]]⟩, .steps 1 [.call 0]], [[1], []]⟩

/-- The program of these statements. -/
def recurring : Program := ⟨recurringCode, recurringGraph, .prelude 0⟩

/-- Recursion by way of `if` is cut off, whatever limit there is. -/
theorem recurring_ends (maxDepth : Nat) : ∃ r, (plain maxDepth).EndsWith recurring .blank r := by
  have hb : Graph.build recurringCode.instructions = .ok recurringGraph := by cbv
  have hp : Program.ofCode recurringCode (.prelude 0) = .ok recurring := by
    unfold Program.ofCode
    rw [hb]
    rfl
  refine ends_of_not_struct maxDepth 0 hp fun i hi a ha => ?_
  simp only [recurringCode, List.mem_cons, List.not_mem_nil, or_false] at hi
  rcases hi with rfl | rfl | rfl | rfl | rfl | rfl | rfl <;> cases ha <;> decide +kernel

end Host

end Dataflow
