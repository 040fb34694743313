import Dataflow.Proofs.Compile.Builtins
import Dataflow.Proofs.Run.Served
import Dataflow.Proofs.Run.Sequential

/-!
# Runs on larger environments

A unit reads only built-in values that it was compiled with, and these stay where they are when more
values are registered. So a run on the larger environment does the same, step by step; in the end the
machines differ in nothing but that environment.

* `Machine.withImage`, `Run.reimage`: a machine with another image for a unit;
* `Value.Served`, `Machine.Serves`: the closures of the unit have all they need on its image;
* `Run.Unmoved`: a computation that does the same on another image;
* `Host.answer_unmoved`, `Program.run_extends`: requests and programs;
* **`Environment.register_harmless`**: registering values does not disturb what compiles.
-/

namespace Dataflow

open Run

/-- An image with the same constants and a larger environment. -/
structure Image.Extends (image image' : Image) : Prop where
  constants : image'.constants = image.constants
  environment : image.environment.Extends image'.environment

/-! ## Values and machines -/

/-- Everything stands for itself; closures of a unit must have all they need on its image. -/
def Link.serving (unit : Nat) (image : Image) : Link where
  identity := Eq
  function := Eq
  closure c c' := c = c' ∧ (c.unit = unit → c.graph.Served image)
  identity_iff := by
    rintro i _ j _ rfl rfl
    rfl
  function_eq := by
    rintro i _ j rfl rfl
    rfl
  closure_id := by
    rintro c _ ⟨rfl, -⟩
    rfl
  closure_params := by
    rintro c _ ⟨rfl, -⟩
    rfl

instance (unit : Nat) (image : Image) : (Link.serving unit image).Exact where
  function_eq := by
    rintro i _ _ rfl rfl
    rfl

/-- The closures of a unit in the value have all they need on its image. -/
def Value.Served (unit : Nat) (image : Image) (v : Value) : Prop :=
  ∃ v', Value.Related (Link.serving unit image) v v'

/-- The same of several values. -/
def Value.AllServed (unit : Nat) (image : Image) (vs : List Value) : Prop :=
  ∃ vs', Value.AllRelated (Link.serving unit image) vs vs'

/-- The same of what an activation keeps. -/
def Slot.Served (unit : Nat) (image : Image) : Slot → Prop
  | .value v => v.Served unit image
  | .declared graph unit' _ => unit' = unit → graph.Served image

/-- A machine on which a unit has an image, and all closures of the unit have what they need. -/
structure Machine.Serves (unit : Nat) (image : Image) (m : Machine) : Prop where
  here : m.images[unit]? = some image
  environments : ∀ {unit' : Nat} {image' : Image} {id v}, m.images[unit']? = some image' →
    image'.environment.get? id = some v → v.Served unit image
  slots : ∀ {scope id s}, m.slot? scope id = some s → s.Served unit image

/-- The machine with another image for a unit. -/
def Machine.withImage (unit : Nat) (image : Image) (m : Machine) : Machine :=
  { m with images := m.images.setIfInBounds unit image }

/-- The same result, on a machine with another image for a unit. -/
def Run.reimage {α : Type} (unit : Nat) (image : Image) :
    EStateM.Result Stop Machine α → EStateM.Result Stop Machine α
  | .ok a m => .ok a (m.withImage unit image)
  | .error e m => .error e (m.withImage unit image)

section Images

variable {unit : Nat} {image image' : Image} {m : Machine}

theorem Value.AllServed.cons {v : Value} {vs : List Value} (hv : v.Served unit image)
    (hs : AllServed unit image vs) : AllServed unit image (v :: vs) := by
  obtain ⟨v', hv⟩ := hv
  obtain ⟨vs', hs⟩ := hs
  exact ⟨v' :: vs', .cons hv hs⟩

theorem Value.AllServed.reverse {vs : List Value} (hs : AllServed unit image vs) :
    AllServed unit image vs.reverse := by
  obtain ⟨vs', hs⟩ := hs
  exact ⟨vs'.reverse, List.rel_reverse hs⟩

theorem Constant.served_value? {c : Constant} {v : Value} (h : c.value? = some v) :
    v.Served unit image := by
  unfold Constant.value? at h
  split at h <;> obtain ⟨x, -, rfl⟩ := Option.map_eq_some_iff.mp h
  · exact ⟨_, .int x⟩
  · exact ⟨_, .float x⟩
  · exact ⟨_, .str x⟩

theorem Slot.served_keep {v : Value} (h : v.Served unit image) (scope : Nat) :
    (Slot.keep scope v).Served unit image := by
  unfold Slot.keep
  split
  · split
    · obtain ⟨v', hv⟩ := h
      cases hv with
      | function hf =>
        cases hf with
        | closure hi hc => exact hc.2
    · exact h
  · exact h

namespace Machine

theorem Serves.lt (h : m.Serves unit image) : unit < m.images.size :=
  (Array.getElem?_eq_some_iff.mp h.here).1

theorem images_withImage (m : Machine) (unit unit' : Nat) (image : Image) :
    (m.withImage unit image).images[unit']? =
      if unit = unit' then if unit < m.images.size then some image else none
      else m.images[unit']? := Array.getElem?_setIfInBounds

/-- Machines with the same images and other activations that keep as good values. -/
theorem Serves.of_slots {m' : Machine} (h : m.Serves unit image) (hi : m'.images = m.images)
    (hs : ∀ {scope id s}, m'.slot? scope id = some s → s.Served unit image) :
    m'.Serves unit image :=
  ⟨by rw [hi]; exact h.here, fun hu => h.environments (hi ▸ hu), hs⟩

theorem Serves.store (h : m.Serves unit image) {scope o : Nat} {a : Activation} {id : ValueId}
    (ha : m.activations[scope]? = some a) (ho : a.offset? id = some o) {s : Slot}
    (hs : s.Served unit image) : (m.store scope o s).Serves unit image := by
  refine h.of_slots rfl fun {scope' id' s'} hslot => ?_
  rw [slot?_store ha ho] at hslot
  split at hslot
  · cases hslot
    exact hs
  · exact h.slots hslot

theorem Serves.grow (h : m.Serves unit image) (parent : Option Nat) (first : ValueId)
    (count : Nat) : (m.grow (.blank parent first count)).Serves unit image := by
  refine h.of_slots rfl fun {scope id s} hslot => ?_
  rw [slot?_grow] at hslot
  split at hslot
  · rw [Activation.slot?_blank] at hslot
    cases hslot
  · exact h.slots hslot

theorem Serves.addImage (h : m.Serves unit image) {image' : Image}
    (he : ∀ {id v}, image'.environment.get? id = some v → v.Served unit image) :
    ({ m with images := m.images.push image' } : Machine).Serves unit image := by
  refine ⟨?_, fun {unit' image'' id v} hu hv => ?_, h.slots⟩
  · rw [Array.getElem?_push_lt h.lt]
    exact (Array.getElem?_eq_getElem h.lt).symm.trans h.here
  · rw [Array.getElem?_push] at hu
    split at hu
    · cases hu
      exact he hv
    · exact h.environments hu hv

theorem withImage_addImage (h : m.Serves unit image) (image' image'' : Image) :
    ({ m with images := m.images.push image'' } : Machine).withImage unit image' =
      { m.withImage unit image' with images := (m.withImage unit image').images.push image'' } := by
  unfold withImage
  congr 1
  apply Array.ext_getElem?
  intro i
  have hlt := h.lt
  rw [Array.getElem?_setIfInBounds, Array.getElem?_push, Array.getElem?_push,
    Array.getElem?_setIfInBounds, Array.size_setIfInBounds, Array.size_push]
  by_cases hi : unit = i
  · simp [← hi, hlt, Nat.ne_of_lt hlt, Nat.lt_succ_of_lt hlt]
  · simp [hi]

end Machine

end Images

/-! ## Computations -/

namespace Run

variable {α β : Type}

/-- A computation that does the same when the unit has another image: the same answer or error, and
the same machine but for the image. Answers have the property `P`. -/
def Unmoved (unit : Nat) (image image' : Image) (P : α → Prop) (x : Run α) : Prop :=
  ∀ ⦃m⦄, m.Serves unit image → x (m.withImage unit image') = reimage unit image' (x m) ∧
    (∀ a m', x m = .ok a m' → m'.Serves unit image ∧ P a) ∧
    ∀ e m', x m = .error e m' → m'.Serves unit image

namespace Unmoved

variable {unit : Nat} {image image' : Image} {P Q : α → Prop} {R : β → Prop} {x : Run α}

/-- A computation that ends in the same way whatever the image is. -/
theorem of_ok (h : ∀ ⦃m⦄, m.Serves unit image → ∃ a m', x m = .ok a m' ∧
    x (m.withImage unit image') = .ok a (m'.withImage unit image') ∧ m'.Serves unit image ∧ P a) :
    Unmoved unit image image' P x := by
  intro m hm
  obtain ⟨a, m', hx, hx', hm', ha⟩ := h hm
  rw [hx, hx']
  refine ⟨rfl, fun a' m₁ he => ?_, fun e m₁ he => ?_⟩
  · cases he
    exact ⟨hm', ha⟩
  · cases he

theorem pure {a : α} (ha : P a) : Unmoved unit image image' P (pure a) :=
  of_ok fun m hm => ⟨a, m, rfl, rfl, hm, ha⟩

theorem throw (e : Stop) : Unmoved unit image image' P (throw e : Run α) := by
  intro m hm
  refine ⟨rfl, fun a m' he => ?_, fun e m' he => ?_⟩
  · cases he
  · cases he
    exact hm

theorem fail (e : RunError) : Unmoved unit image image' P (fail e : Run α) := throw _

theorem bind {f : α → Run β} (hx : Unmoved unit image image' P x)
    (hf : ∀ a, P a → Unmoved unit image image' R (f a)) :
    Unmoved unit image image' R (x >>= f) := by
  intro m hm
  obtain ⟨he, hok, herr⟩ := hx hm
  rw [bind_apply, bind_apply, he]
  cases hr : x m with
  | ok a m₁ =>
    obtain ⟨hm₁, ha⟩ := hok a m₁ hr
    exact hf a ha hm₁
  | error e m₁ =>
    refine ⟨rfl, fun a m' he => ?_, fun e m' he => ?_⟩
    · cases he
    · cases he
      exact herr _ _ hr

/-- A computation whose error is seen. -/
theorem attempt (hx : Unmoved unit image image' P x) :
    Unmoved unit image image' (fun r => ∀ a, r = .ok a → P a) x.attempt := by
  intro m hm
  obtain ⟨he, hok, herr⟩ := hx hm
  rw [attempt_apply, attempt_apply, he]
  cases hr : x m with
  | ok a m₁ =>
    obtain ⟨hm₁, ha⟩ := hok a m₁ hr
    refine ⟨rfl, fun r m' h => ?_, fun e m' h => ?_⟩
    · cases h
      exact ⟨hm₁, fun a' h => Except.ok.inj h ▸ ha⟩
    · cases h
  | error e m₁ =>
    have hm₁ := herr e m₁ hr
    cases e with
    | error e =>
      refine ⟨rfl, fun r m' h => ?_, fun e' m' h => ?_⟩
      · cases h
        exact ⟨hm₁, fun a h => by cases h⟩
      · cases h
    | exhausted =>
      refine ⟨rfl, fun r m' h => ?_, fun e' m' h => ?_⟩
      · cases h
      · cases h
        exact hm₁

theorem forM {γ : Type} {f : γ → Run PUnit} {cs : List γ}
    (h : ∀ c ∈ cs, Unmoved unit image image' (fun _ => True) (f c)) :
    Unmoved unit image image' (fun _ => True) (cs.forM f) := by
  induction cs with
  | nil => exact pure trivial
  | cons c cs ih =>
    exact bind (h c List.mem_cons_self) fun _ _ => ih fun c' hc => h c' (List.mem_cons_of_mem _ hc)

/-! ### Operations -/

theorem fresh : Unmoved unit image image' (fun _ => True) fresh :=
  of_ok fun _ hm => ⟨_, _, rfl, rfl, hm.of_slots rfl hm.slots, trivial⟩

theorem print (text : String) : Unmoved unit image image' (fun _ => True) (print text) :=
  of_ok fun _ hm => ⟨_, _, rfl, rfl, hm.of_slots rfl hm.slots, trivial⟩

theorem noteLoad (target : String) : Unmoved unit image image' (fun _ => True) (noteLoad target) :=
  of_ok fun _ hm => ⟨_, _, rfl, rfl, hm.of_slots rfl hm.slots, trivial⟩

theorem addImage {image'' : Image}
    (he : ∀ {id v}, image''.environment.get? id = some v → v.Served unit image) :
    Unmoved unit image image' (· ≠ unit) (addImage image'') := by
  refine of_ok fun m hm => ⟨_, _, rfl, ?_, hm.addImage he, (Nat.ne_of_lt hm.lt).symm⟩
  rw [Machine.withImage_addImage hm]
  show EStateM.Result.ok (m.withImage unit image').images.size _ = _
  rw [Machine.withImage, Array.size_setIfInBounds]

theorem enter (parent : Option Nat) (first : ValueId) (count : Nat) :
    Unmoved unit image image' (fun _ => True) (enter parent first count) :=
  of_ok fun _ hm => ⟨_, _, rfl, rfl, hm.grow parent first count, trivial⟩

theorem put (scope : Nat) (id : ValueId) {s : Slot} (hs : s.Served unit image) :
    Unmoved unit image image' (fun _ => True) (put scope id s) := by
  intro m hm
  refine ⟨?_, fun u m' h => ?_, fun e m' h => ?_⟩
  · unfold Run.put
    have ha : (m.withImage unit image').activations = m.activations := rfl
    have hslot : (m.withImage unit image').slot? scope id = m.slot? scope id := rfl
    rw [ha, hslot]
    cases (m.activations[scope]?).bind (·.offset? id) with
    | none => rfl
    | some offset =>
      dsimp only
      split <;> rfl
  · obtain ⟨a, o, ha, ho, -, rfl⟩ := put_eq_ok_iff.mp h
    exact ⟨hm.store ha ho hs, trivial⟩
  · unfold Run.put at h
    split at h
    · cases h
      exact hm
    · split at h
      · cases h
        exact hm
      · cases h

/-- What is read of what an activation keeps. -/
theorem read (scope : Nat) (id : ValueId) :
    Unmoved unit image image' (fun v => ∀ w ∈ v, Value.Served unit image w) (read scope id) := by
  refine of_ok fun m hm => ?_
  have hslot : (m.withImage unit image').slot? scope id = m.slot? scope id := rfl
  rw [read_apply, read_apply, hslot]
  cases hs : m.slot? scope id with
  | none => exact ⟨none, m, rfl, rfl, hm, by simp⟩
  | some s =>
    have hserved := hm.slots hs
    cases s with
    | value v =>
      refine ⟨some v, m, rfl, rfl, hm, fun w hw => ?_⟩
      cases hw
      exact hserved
    | declared graph unit' id' =>
      refine ⟨_, _, rfl, rfl, hm.of_slots rfl hm.slots, fun w hw => ?_⟩
      cases hw
      exact ⟨_, .function (.closure rfl ⟨rfl, hserved⟩)⟩

theorem readResult (scope : Nat) (id : ValueId) {k : Option Value → Run Value}
    (hk : ∀ v, k (some v) = Pure.pure v) (hn : ∃ e, k none = Run.fail e) :
    Unmoved unit image image' (Value.Served unit image) (Run.read scope id >>= k) := by
  refine (read scope id).bind fun v hv => ?_
  cases v with
  | some v =>
    rw [hk]
    exact pure (hv v rfl)
  | none =>
    obtain ⟨e, he⟩ := hn
    rw [he]
    exact fail e

theorem get {f : Machine → Run β} (hf : ∀ m, Unmoved unit image image' R (f m))
    (hi : ∀ m, f (m.withImage unit image') = f m) :
    Unmoved unit image image' R (MonadState.get >>= f) := by
  intro m hm
  rw [bind_ok (show (MonadState.get : Run Machine) (m.withImage unit image') = .ok _ _ from rfl),
    bind_ok (show (MonadState.get : Run Machine) m = .ok m m from rfl), hi]
  exact hf m hm

theorem find (scope : Nat) (id : ValueId) :
    Unmoved unit image image' (Value.Served unit image) (Run.find scope id) := by
  refine get (fun m => ?_) fun m => ?_
  · split
    · exact fail _
    · exact readResult _ id (fun _ => rfl) ⟨_, rfl⟩
  · have hholder : (m.withImage unit image').holder? id scope = m.holder? id scope := by
      apply Machine.holder?_congr
      exact fun _ => rfl
    rw [hholder]

theorem bindArguments (scope : Nat) (id : ValueId) {args : List Value}
    (h : Value.AllServed unit image args) :
    Unmoved unit image image' (fun _ => True) (bindArguments scope id args) := by
  induction args generalizing id with
  | nil => exact pure trivial
  | cons v vs ih =>
    obtain ⟨_, hs⟩ := h
    cases hs with
    | cons hv hs =>
      exact (put scope id (Slot.served_keep ⟨_, hv⟩ scope)).bind fun _ _ => ih (id + 1) ⟨_, hs⟩

end Unmoved

end Run

/-! ## Frames -/

section Runs

variable {unit : Nat} {image image' : Image}

/-- A frame of another unit sees no difference, one of the unit sees the other image. -/
theorem Frame.image_withImage (f : Frame) (image' : Image) {m : Machine} (hm : m.Serves unit image) :
    (f.unit = unit ∧ m.images.getD f.unit default = image ∧
      (m.withImage unit image').images.getD f.unit default = image') ∨
    (f.unit ≠ unit ∧ (m.withImage unit image').images.getD f.unit default =
      m.images.getD f.unit default) := by
  simp only [Array.getD_eq_getD_getElem?, Machine.images_withImage]
  by_cases hf : f.unit = unit
  · refine .inl ⟨hf, ?_, ?_⟩
    · rw [hf, hm.here]
      rfl
    · rw [if_pos hf.symm, if_pos hm.lt]
      rfl
  · exact .inr ⟨hf, by rw [if_neg (Ne.symm hf)]⟩

theorem Frame.environment_served {f : Frame} {m : Machine} (hm : m.Serves unit image)
    {id : ValueId} {v : Value}
    (hv : (m.images.getD f.unit default).environment.get? id = some v) : v.Served unit image := by
  rw [Array.getD_eq_getD_getElem?] at hv
  cases hu : m.images[f.unit]? with
  | some image'' =>
    rw [hu] at hv
    exact hm.environments hu hv
  | none =>
    rw [hu] at hv
    have hnone : (default : Environment).get? id = none := Environment.get?_empty id
    rw [show (none.getD default : Image).environment = default from rfl, hnone] at hv
    cases hv

theorem Frame.find_unmoved (hi : image.Extends image') (f : Frame) {id : ValueId}
    (hid : f.unit = unit → id < 0 → image.Has id) :
    Unmoved unit image image' (Value.Served unit image) (f.find id) := by
  intro m hm
  by_cases hb : id.isBuiltin = true
  · rw [f.find_of_isBuiltin hb, f.find_of_isBuiltin hb]
    have hneg : id < 0 := by simpa [ValueId.isBuiltin] using hb
    have hget : ∀ v, (m.images.getD f.unit default).environment.get? id = some v →
        ((m.withImage unit image').images.getD f.unit default).environment.get? id = some v := by
      intro v hv
      rcases f.image_withImage image' hm with ⟨-, h, h'⟩ | ⟨-, h⟩
      · rw [h']
        rw [h] at hv
        exact hi.environment.get? hv
      · rwa [h]
    cases hv : (m.images.getD f.unit default).environment.get? id with
    | some v =>
      rw [hget v hv]
      refine ⟨rfl, fun a m' he => ?_, fun e m' he => ?_⟩
      · cases he
        exact ⟨hm, Frame.environment_served hm hv⟩
      · cases he
    | none =>
      -- a missing value is missing in another unit, whose image is the same
      rcases f.image_withImage image' hm with ⟨hf, h, -⟩ | ⟨-, h⟩
      · have hhas := hid hf hneg
        rw [Image.Has, ← h, hv] at hhas
        cases hhas
      · rw [h, hv]
        refine ⟨rfl, fun a m' he => ?_, fun e m' he => ?_⟩
        · cases he
        · cases he
          exact hm
  · have hfind : f.find id = Run.find f.scope id := by
      unfold Frame.find
      rw [if_neg hb]
    rw [hfind]
    exact Unmoved.find f.scope id hm

theorem Frame.constant_unmoved (hi : image.Extends image') (f : Frame) (id : ConstantId) :
    Unmoved unit image image' (Value.Served unit image) (f.constant id) := by
  intro m hm
  have hconstants : ((m.withImage unit image').images.getD f.unit default).constants =
      (m.images.getD f.unit default).constants := by
    rcases f.image_withImage image' hm with ⟨-, h, h'⟩ | ⟨-, h⟩
    · rw [h, h', hi.constants]
    · rw [h]
  rw [f.constant_apply, f.constant_apply, hconstants]
  cases (m.images.getD f.unit default).constants[id.toNat]? with
  | none => exact Unmoved.fail _ hm
  | some c =>
    cases hv : c.value? with
    | none =>
      simp only [hv]
      exact Unmoved.fail _ hm
    | some v =>
      simp only [hv]
      exact Unmoved.pure (Constant.served_value? hv) hm

theorem Frame.fieldName_unmoved (hi : image.Extends image') (f : Frame) (id : ConstantId) :
    Unmoved unit image image' (fun _ => True) (f.fieldName id) := by
  refine (f.constant_unmoved hi id).bind fun v _ => ?_
  split
  · exact .pure trivial
  · exact .fail _

/-! ## Scripts, blocks and graphs -/

variable {answer : Request → Run Value}

/-- Requests are answered alike on both images, as long as they are about closures that have what
they need. -/
def Run.AnswersUnmoved (unit : Nat) (image image' : Image) (answer : Request → Run Value) : Prop :=
  ∀ {r r'}, Request.Related (Link.serving unit image) r r' →
    Unmoved unit image image' (Value.Served unit image) (answer r)

theorem Script.run_unmoved (ha : AnswersUnmoved unit image image' answer) (level : Nat)
    {s s' : Script Value} (hs : Script.Alike (Link.serving unit image) s s') :
    Unmoved unit image image' (Value.Served unit image) (s.run answer level) := by
  induction hs with
  | done h => exact .pure ⟨_, h⟩
  | fail e => exact .fail e
  | ask hr _ ih =>
    refine (ha hr).attempt.bind fun x hx => ?_
    cases x with
    | ok v =>
      obtain ⟨v', hv⟩ := hx v rfl
      exact ih _ _ (.ok hv)
    | error e => exact ih _ _ (.error e)
  | print text _ ih => exact (Unmoved.print text).bind fun _ _ => ih
  | mint _ ih => exact Unmoved.fresh.bind fun i _ => ih i i rfl
  | depth _ ih => exact ih level

/-- What instructions need of the image of a frame is there. -/
theorem runSteps_unmoved (hi : image.Extends image') (ha : AnswersUnmoved unit image image' answer)
    (f : Frame) (id : ValueId) {args : List Value} (hargs : Value.AllServed unit image args)
    {is : List Instruction} (his : f.unit = unit → Making image is) :
    Unmoved unit image image' (Value.Served unit image) (runSteps answer f id args is) := by
  have operand {i : Instruction} {rest : List Instruction} {a : ValueId}
      (his : f.unit = unit → Making image (i :: rest))
      (hi' : i.Served image.Has image.Holds → a < 0 → image.Has a) :
      f.unit = unit → a < 0 → image.Has a := by
    intro hf
    cases his hf with
    | argument hs _ => exact hi' hs
    | value _ hs => exact hi' hs
  fun_induction runSteps answer f id args is with
  | case1 args a rest ih =>
    refine (f.find_unmoved hi (operand his fun h => h)).bind fun v hv => ih v (hargs.cons hv) fun hf => ?_
    cases his hf with
    | argument _ hr => exact hr
    | value hp _ => cases hp
  | case2 args callee rest =>
    refine (f.find_unmoved hi (operand his fun h => h)).bind fun v hv => ?_
    obtain ⟨v', hv⟩ := hv
    obtain ⟨vs', hvs⟩ := hargs.reverse
    exact Script.run_unmoved ha f.depth (hv.apply hvs)
  | case3 args c rest => exact f.constant_unmoved hi c
  | case4 args value name form rest =>
    refine (f.find_unmoved hi (operand his And.left)).bind fun v hv => ?_
    refine (f.fieldName_unmoved hi name).bind fun text _ => ?_
    obtain ⟨v', hv⟩ := hv
    exact Script.run_unmoved ha f.depth (hv.select text form)
  | case5 args a rest => exact f.find_unmoved hi (operand his fun h => h)
  | case6 => exact .fail _

theorem Block.run_unmoved (hi : image.Extends image') (ha : AnswersUnmoved unit image image' answer)
    (f : Frame) {g : Graph} (hg : f.unit = unit → g.Served image) {i : Nat} {b : Block}
    (hb : g.blocks[i]? = some b) : Unmoved unit image image' (fun _ => True) (b.run answer f) := by
  cases b with
  | function id body => exact .put f.scope id fun hf => (hg hf).body hb
  | steps id is =>
    have hnil : Value.AllServed unit image [] := ⟨[], .nil⟩
    have hsteps := runSteps_unmoved hi ha f id hnil fun hf =>
      (hg hf).level.steps (List.mem_of_getElem? hb)
    exact hsteps.bind fun v hv => .put f.scope id (Slot.served_keep hv f.scope)

theorem Graph.run_unmoved (hi : image.Extends image') (ha : AnswersUnmoved unit image image' answer)
    {g : Graph} {unit' : Nat} (hg : unit' = unit → g.Served image) (depth : Nat)
    (parent : Option Nat) {args : List Value} (hargs : Value.AllServed unit image args) :
    Unmoved unit image image' (Value.Served unit image) (g.run answer unit' depth parent args) := by
  cases hres : g.result? with
  | none =>
    have hrun : g.run answer unit' depth parent args = Run.fail .emptyBody := by
      unfold Graph.run
      simp only [hres]
    rw [hrun]
    exact .fail _
  | some result =>
    rw [Graph.run_eq hres]
    refine (Unmoved.enter parent g.first g.slotCount).bind fun scope _ => ?_
    refine (Unmoved.bindArguments scope g.first hargs).bind fun _ _ => ?_
    refine (Unmoved.forM fun i _ => ?_).bind fun _ _ => ?_
    · unfold Graph.runBlock
      split
      case h_1 b hb => exact Block.run_unmoved hi ha ⟨unit', scope, depth⟩ hg hb
      case h_2 => exact .pure trivial
    · unfold Graph.conclude
      split
      · exact .readResult scope result (fun _ => rfl) ⟨_, rfl⟩
      · exact .fail _

/-! ## Requests and programs -/

/-- The values that a host can bring in know the unit only through closures that have what they
need. -/
structure Host.Serves (unit : Nat) (image : Image) (h : Host) : Prop where
  functions : ∀ {vs vs' : List Value}, Value.AllRelated (Link.serving unit image) vs vs' →
    ∀ number : Nat, Script.Alike (Link.serving unit image)
      (h.function number vs)
      (h.function number vs')
  value : ∀ {loader target v}, h.loader? = some loader → loader target = .value v →
    v.Served unit image
  program : ∀ {loader target p quiet id v}, h.loader? = some loader →
    loader target = .program p quiet → p.environment.get? id = some v → v.Served unit image

/-- A program of another unit does the same on both images. -/
theorem Program.run_unmoved (hi : image.Extends image')
    (ha : AnswersUnmoved unit image image' answer) {p : Program}
    (hp : ∀ {id v}, p.environment.get? id = some v → v.Served unit image) :
    Unmoved unit image image' (Value.Served unit image) (p.run answer) := by
  refine (Unmoved.addImage hp).bind fun unit' hu => ?_
  exact Graph.run_unmoved hi ha (fun h => absurd h hu) 0 none ⟨[], .nil⟩

theorem Run.Unmoved.quietly {α : Type} {P : α → Prop} {x : Run α}
    (hx : Unmoved unit image image' P x) : Unmoved unit image image' P (quietly x) := by
  intro m hm
  have hm₀ : ({ m with printed := #[] } : Machine).Serves unit image := hm.of_slots rfl hm.slots
  obtain ⟨he, hok, herr⟩ := hx hm₀
  have he' : x { m.withImage unit image' with printed := #[] } = _ := he
  unfold Run.quietly
  rw [he']
  cases hr : x { m with printed := #[] } with
  | ok a m₁ =>
    obtain ⟨hm₁, ha⟩ := hok a m₁ hr
    refine ⟨rfl, fun a' m' h => ?_, fun e m' h => ?_⟩
    · cases h
      exact ⟨hm₁.of_slots rfl hm₁.slots, ha⟩
    · cases h
  | error e m₁ =>
    have hm₁ := herr e m₁ hr
    refine ⟨rfl, fun a' m' h => ?_, fun e m' h => ?_⟩
    · cases h
    · cases h
      exact hm₁.of_slots rfl hm₁.slots

/-- A program that is loaded, with its output or without. -/
theorem Host.load_unmoved {h : Host} {loader : String → Loaded} {p : Program} {quiet : Bool}
    {target : String} (hl : h.loader? = some loader) (ht : loader target = .program p quiet)
    {fuel : Nat}
    (hp : Unmoved unit image image' (Value.Served unit image) (p.run (h.answer fuel 0)))
    (depth : Nat) : Unmoved unit image image' (Value.Served unit image)
      (h.answer (fuel + 1) depth (.load target)) := by
  have hx : Unmoved unit image image' (Value.Served unit image)
      (if quiet then quietly (p.run (h.answer fuel 0)) else p.run (h.answer fuel 0)) := by
    split
    · exact hp.quietly
    · exact hp
  intro m hm
  rw [Host.answer_program hl ht, Host.answer_program hl ht]
  generalize (if quiet then quietly (p.run (h.answer fuel 0)) else p.run (h.answer fuel 0)) = x at hx
  obtain ⟨he, hok, herr⟩ := hx (m := { m with loads := m.loads.push target })
    (hm.of_slots rfl hm.slots)
  have he' : x { m.withImage unit image' with loads := (m.withImage unit image').loads.push target } =
    _ := he
  rw [he']
  cases hr : x { m with loads := m.loads.push target } with
  | ok a m₁ =>
    refine ⟨rfl, fun a' m' h => ?_, fun e m' h => ?_⟩
    · cases h
      exact hok a m₁ hr
    · cases h
  | error e m₁ =>
    refine ⟨rfl, fun a' m' h => ?_, fun e m' h => ?_⟩
    · cases h
    · cases h
      exact herr e m₁ hr

/-- **Requests are answered alike on both images.** -/
theorem Host.answer_unmoved {h : Host} (hi : image.Extends image') (hh : h.Serves unit image)
    (fuel depth : Nat) : AnswersUnmoved unit image image' (h.answer fuel depth) := by
  induction fuel generalizing depth with
  | zero => exact fun _ => Unmoved.throw _
  | succ fuel ih =>
    intro r r' hr
    cases hr with
    | @call f f' vs vs' hf hs =>
      cases hf with
      | native n =>
        refine Unmoved.bind (P := fun _ => True) ?_ fun _ _ => ?_
        · cases n.signature.check n.name vs with
          | ok u => exact .pure trivial
          | error e => exact .fail e
        · have hscript : Script.Alike (Link.serving unit image) (h.scriptOf n vs)
              (h.scriptOf n vs') := by
            unfold Host.scriptOf
            split
            · exact Builtin.script_related _ hs
            · exact hh.functions hs _
          exact Script.run_unmoved (ih depth) depth hscript
      | @method i i' v v' m hid hv =>
        refine Unmoved.bind (P := fun _ => True) ?_ fun _ _ => ?_
        · cases m.signature.check (Function.method i v m).name vs with
          | ok u => exact .pure trivial
          | error e => exact .fail e
        · exact Script.run_unmoved (ih depth) depth (m.script_related hv hs (.inl inferInstance))
      | @closure i i' c c' hid hc =>
        rw [Host.answer_closure]
        split
        · split
          · exact .fail _
          · exact Graph.run_unmoved hi (ih (depth + 1)) hc.2 (depth + 1) (some c.scope) ⟨vs', hs⟩
        · exact .fail _
    | load target =>
      cases hl : h.loader? with
      | none =>
        have he : h.answer (fuel + 1) depth (.load target) = Run.fail (.noLoader target) := by
          rw [Host.answer]
          simp only [hl]
        rw [he]
        exact .fail _
      | some loader =>
        cases ht : loader target with
        | program p quiet =>
          exact Host.load_unmoved hl ht (Program.run_unmoved hi (ih 0) (hh.program hl ht)) depth
        | value v =>
          rw [Host.answer]
          simp only [hl, ht]
          exact (Unmoved.noteLoad target).bind fun _ _ => .pure (hh.value hl ht)
        | failed message | dropped =>
          rw [Host.answer]
          simp only [hl, ht]
          exact (Unmoved.noteLoad target).bind fun _ _ => .fail _

end Runs

/-! ## Environments -/

/-- Everything stands for itself; closures belong to one of the first `n` units. -/
def Link.among (n : Nat) : Link where
  identity := Eq
  function := Eq
  closure c c' := c = c' ∧ c.unit < n
  identity_iff := by
    rintro i _ j _ rfl rfl
    rfl
  function_eq := by
    rintro i _ j rfl rfl
    rfl
  closure_id := by
    rintro c _ ⟨rfl, -⟩
    rfl
  closure_params := by
    rintro c _ ⟨rfl, -⟩
    rfl

/-- All closures in the value belong to one of the first `n` units. -/
abbrev Value.Among (n : Nat) (v : Value) : Prop := Value.Related (Link.among n) v v

/-- Where a program with the environment `e` may be run: the host's functions treat values alike that
stand for each other, and all closures that are around belong to units that are there. -/
structure Machine.Settled (h : Host) (e : Environment) (m : Machine) : Prop where
  functions : ∀ {L : Link} [L.Exact] {vs vs' : List Value}, Value.AllRelated L vs vs' →
    ∀ number : Nat, Script.Alike L (h.function number vs) (h.function number vs')
  loadedValue : ∀ {loader target v}, h.loader? = some loader → loader target = .value v →
    v.Among m.images.size
  loadedProgram : ∀ {loader target p quiet id v}, h.loader? = some loader →
    loader target = .program p quiet → p.environment.get? id = some v → v.Among m.images.size
  environment : ∀ {id v}, e.get? id = some v → v.Among m.images.size
  environments : ∀ {unit : Nat} {image : Image} {id v}, m.images[unit]? = some image →
    image.environment.get? id = some v → v.Among m.images.size
  value : ∀ {scope id v}, m.slot? scope id = some (.value v) → v.Among m.images.size
  declared : ∀ {scope id graph unit id'}, m.slot? scope id = some (.declared graph unit id') →
    unit < m.images.size

theorem Value.Among.served {n : Nat} {v : Value} (h : v.Among n) (image : Image) :
    v.Served n image := by
  have hle : (Link.among n).Le (Link.serving n image) :=
    ⟨fun hi => hi, fun hi => hi, fun hc => ⟨hc.1, fun hn => absurd hc.2 (by omega)⟩⟩
  exact ⟨v, h.mono hle⟩

/-- **A program does the same on a larger environment**, and leaves behind the same machine but for
that environment. -/
theorem Program.run_extends {p p' : Program} (hc : p'.code = p.code) (hg : p'.graph = p.graph)
    (he : p.environment.Extends p'.environment) (hp : p.graph.Served p.image) {h : Host}
    {m : Machine} (hm : m.Settled h p.environment) (fuel : Nat) :
    p'.run (h.answer fuel 0) m =
      reimage m.images.size p'.image (p.run (h.answer fuel 0) m) := by
  have hi : p.image.Extends p'.image := ⟨by rw [Program.image, Program.image, hc], he⟩
  have hh : h.Serves m.images.size p.image :=
    ⟨hm.functions, fun hl ht => (hm.loadedValue hl ht).served _,
      fun hl ht hv => (hm.loadedProgram hl ht hv).served _⟩
  have hm₁ : ({ m with images := m.images.push p.image } : Machine).Serves m.images.size p.image := by
    refine ⟨Array.getElem?_push_size, fun {unit image id v} hu hv => ?_, fun {scope id s} hs => ?_⟩
    · rw [Array.getElem?_push] at hu
      split at hu
      · cases hu
        exact (hm.environment hv).served _
      · exact (hm.environments hu hv).served _
    · cases s with
      | value v => exact (hm.value hs).served _
      | declared graph unit id' => exact fun hu => absurd (hm.declared hs) (by omega)
  have hm₂ : ({ m with images := m.images.push p.image } : Machine).withImage m.images.size p'.image =
      { m with images := m.images.push p'.image } := by
    unfold Machine.withImage
    congr 1
    apply Array.ext_getElem?
    intro i
    rw [Array.getElem?_setIfInBounds, Array.getElem?_push, Array.getElem?_push, Array.size_push]
    by_cases hi : m.images.size = i
    · simp [← hi]
    · simp [hi, Ne.symm hi]
  have hg₁ : m.images.size = m.images.size → p.graph.Served p.image := fun _ => hp
  have hrun := Graph.run_unmoved hi (Host.answer_unmoved hi hh fuel 0) hg₁ 0 none ⟨[], .nil⟩ hm₁
  have hstart (q : Program) : q.run (h.answer fuel 0) m = q.graph.run (h.answer fuel 0) m.images.size
      0 none [] { m with images := m.images.push q.image } := rfl
  rw [hstart p', hstart p, hg, ← hm₂]
  exact hrun.1

/-- **Registering values does not disturb what compiles.** Entries are found by names and numbers that
belong together, those that are there keep theirs, and a value whose name is taken changes nothing.
What compiled compiles to the same unit, and this does the same whenever it is run: it gives the same
value or error and leaves behind the same machine, but for the environment of the unit. Numbers have
32 bits, so the tree and the environment must not be too large for them. -/
theorem Environment.register_harmless {e : Environment} (hr : e.Reached)
    (more : List (String × Value)) (hs : (e.tryRegisterAll more).size ≤ 2 ^ 31) :
    e.Indexed ∧ (e.tryRegisterAll more).Indexed ∧
    (∀ {name id}, e.idOf? name = some id → (e.tryRegisterAll more).idOf? name = some id ∧
      (e.tryRegisterAll more).nameOf? id = some name ∧
      (e.tryRegisterAll more).get? id = e.get? id) ∧
    (∀ {name v err}, e.register name v = .error err →
      err = ⟨name⟩ ∧ name ∈ e.names ∧ e.tryRegister (name, v) = e) ∧
    ∀ {root : Node} {code : Code}, root.compile e.idOf? = .ok code →
      root.compile (e.tryRegisterAll more).idOf? = .ok code ∧
      (root.weight < 2 ^ 31 → ∃ p p', Program.ofCode code e = .ok p ∧
        Program.ofCode code (e.tryRegisterAll more) = .ok p' ∧
        ∀ {h : Host} {m : Machine}, m.Settled h e → ∀ fuel, p'.run (h.answer fuel 0) m =
          reimage m.images.size p'.image (p.run (h.answer fuel 0) m)) := by
  have hx := e.extends_tryRegisterAll more
  have hse : e.size ≤ 2 ^ 31 := hx.size_le.trans hs
  have hi := hr.indexed hse
  refine ⟨hi, (hr.tryRegisterAll more).indexed hs, fun {name id} hid => ?_, fun {name v err} he => ?_,
    fun {root code} hc => ?_⟩
  · refine ⟨hx.idOf? hid, hx.nameOf? (hi.inverse.mp hid), ?_⟩
    obtain ⟨v, hv⟩ := Option.isSome_iff_exists.mp (Environment.get?_of_idOf? hse hid).2
    rw [hv, hx.get? hv]
  · rcases e.register_cases name v with ⟨hn, he', ht⟩ | ⟨-, e', he', -⟩
    · rw [he'] at he
      cases he
      exact ⟨rfl, hn, ht⟩
    · rw [he'] at he
      cases he
  · refine ⟨Node.compile_le hx.idOf? hc, fun hw => ?_⟩
    obtain ⟨p, hp, hserved⟩ := Node.compile_served hw hse hc
    obtain ⟨graph, rfl⟩ : ∃ graph, p = ⟨code, graph, e⟩ := by
      unfold Program.ofCode at hp
      split at hp
      · cases hp
        exact ⟨_, rfl⟩
      · cases hp
    refine ⟨_, ⟨code, graph, e.tryRegisterAll more⟩, hp, ?_, fun {h m} hm fuel => ?_⟩
    · rw [Program.ofCode, hserved.built]
    · refine Program.run_extends ?_ ?_ ?_ hserved.served hm fuel
      · rfl
      · rfl
      · exact hx

/-- The statements `fn f(): limit` and `f()`. -/
def Node.limited : Node :=
  .list default [.function default "f" [] (.ident default "limit"),
    .call default (.ident default "f") []]

/-- The value registered for them. -/
def Environment.limited : Environment := empty.tryRegisterAll [("limit", .int 7)]

/-- The program of these statements. -/
def Program.limited : Program where
  code := ⟨.zero, [], [.enter 0, .copy (-1), .leave, .call 0]⟩
  graph := ⟨0, 0, [.function 0 ⟨1, 0, [.steps 1 [.copy (-1)]], [[]]⟩, .steps 1 [.call 0]], [[1], []]⟩
  environment := .limited

theorem Program.ofCode_limited : Program.ofCode Program.limited.code .limited = .ok .limited := by
  have hg : Graph.build Program.limited.code.instructions = .ok Program.limited.graph := by cbv
  rw [Program.ofCode, hg]
  rfl

theorem Program.run_limited :
    ∃ m, Program.limited.run (Host.answer ⟨⟨64, .sequential⟩, #[], none⟩ 9 0) .blank = .ok (.int 7) m := by
  refine ⟨⟨#[⟨#[], .limited⟩], #[⟨none, 0, #[some (.declared ⟨1, 0, [.steps 1 [.copy (-1)]], [[]]⟩ 0 0),
    some (.value (.int 7))]⟩, ⟨some 0, 1, #[some (.value (.int 7))]⟩], 1, #[], #[]⟩, ?_⟩
  cbv

theorem Machine.settled_limited : Machine.blank.Settled ⟨⟨64, .sequential⟩, #[], none⟩ .limited where
  functions _ _ := .done .unit
  loadedValue h := by cases h
  loadedProgram h := by cases h
  environment {id v} h := by
    obtain ⟨entry, he, rfl⟩ := Option.map_eq_some_iff.mp h
    obtain ⟨index, -, hx⟩ := Environment.entry?_eq_some_iff.mp he
    have hmem : entry ∈ [("limit", Value.int 7)] := List.mem_of_getElem? hx
    rw [List.mem_singleton.mp hmem]
    exact .int 7
  environments h := by simp [Machine.blank] at h
  value h := by simp [Machine.blank, Machine.slot?] at h
  declared h := by simp [Machine.blank, Machine.slot?] at h

/-- A program that was compiled when `limit` was 7 gives 7 after attempts to register `limit` once
more, which is refused, and `floor`. -/
theorem Environment.register_harmless_limit : ∃ p' m,
    Node.limited.compile (limited.tryRegisterAll [("limit", .int 8), ("floor", .int 9)]).idOf? =
      .ok Program.limited.code ∧
    Program.ofCode Program.limited.code
      (limited.tryRegisterAll [("limit", .int 8), ("floor", .int 9)]) = .ok p' ∧
    p'.run (Host.answer ⟨⟨64, .sequential⟩, #[], none⟩ 9 0) .blank = .ok (.int 7) m := by
  have hc : Node.limited.compile Environment.limited.idOf? = .ok Program.limited.code := by cbv
  have hr : Environment.limited.Reached := ⟨_, .inl rfl⟩
  obtain ⟨-, -, -, -, hcompile⟩ := Environment.register_harmless hr
    [("limit", .int 8), ("floor", .int 9)] (by decide)
  obtain ⟨hc', hprogram⟩ := hcompile hc
  obtain ⟨p, p', hp, hp', hrun⟩ := hprogram (by decide)
  rw [Program.ofCode_limited] at hp
  cases hp
  obtain ⟨m, hval⟩ := Program.run_limited
  refine ⟨p', m.withImage 0 p'.image, hc', hp', ?_⟩
  rw [hrun Machine.settled_limited, hval]
  rfl

end Dataflow
