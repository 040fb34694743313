import Dataflow.Proofs.Direct.Tandem

/-!
# What comes of an evaluation and a run

An evaluation and a run that start side by side end side by side, or they stop with the same error
after having printed and loaded the same; as long as the evaluation does not compare a function with
itself.

* `Tandem.Outcome`: what comes of both;
* `Tandem.Together`: what comes of both if the calls of the evaluation are indifferent;
* `Tandem.Together.bind`: one thing after another;
* `Tandem.Tied.mint`, `Tandem.Tied.print`, `Tandem.Tied.noteLoad`: the operations that leave
  activations alone;
* `Tandem.Tied.keeps`, `Tandem.Tied.read`: values are kept and read on the machine;
* **`Tandem.Answers.script`**: scripts that are alike, given that requests are answered alike.
-/

namespace Dataflow

open Run

namespace Evaluation

variable {α β : Type}

theorem pure_apply (a : α) (w : World) : (pure a : Evaluation α) w = ([], .ok a w) := rfl

theorem bind_apply (x : Evaluation α) (f : α → Evaluation β) (w : World) :
    (x >>= f) w = match x w with
      | (calls, .ok a w') => (calls ++ (f a w').1, (f a w').2)
      | (calls, .error e w') => (calls, .error e w') := rfl

theorem bind_snd (x : Evaluation α) (f : α → Evaluation β) (w : World) :
    ((x >>= f) w).2 = match (x w).2 with
      | .ok a w' => (f a w').2
      | .error e w' => .error e w' := by
  rw [bind_apply]
  rcases x w with ⟨calls, _ | _⟩ <;> rfl

/-- If all calls of two computations in a row are indifferent, so are those of each. -/
theorem indifferent_of_bind {h : SourceHost} {x : Evaluation α} {f : α → Evaluation β} {w : World}
    (hc : h.AllIndifferent ((x >>= f) w).1) : h.AllIndifferent (x w).1 ∧
      ∀ {a w'}, (x w).2 = .ok a w' → h.AllIndifferent (f a w').1 := by
  rw [bind_apply] at hc
  generalize x w = r at hc ⊢
  rcases r with ⟨calls, ⟨a, w'⟩ | ⟨e, w'⟩⟩
  · refine ⟨fun c hmem => hc c (List.mem_append_left _ hmem), ?_⟩
    rintro _ _ ⟨⟩ c hmem
    exact hc c (List.mem_append_right _ hmem)
  · refine ⟨hc, ?_⟩
    rintro _ _ ⟨⟩

/-- What follows a computation without calls. -/
theorem bind_ok {x : Evaluation α} {f : α → Evaluation β} {w w' : World} {a : α}
    (hx : x w = ([], .ok a w')) : (x >>= f) w = f a w' := by
  rw [bind_apply, hx]
  rfl

instance : LawfulMonad Evaluation := LawfulMonad.mk' _
  (fun x => funext fun w => by
    show (x >>= fun a => pure (id a)) w = x w
    rw [bind_apply]
    rcases x w with ⟨calls, _ | _⟩ <;> simp [pure_apply])
  (fun a f => funext fun w => by
    rw [bind_apply, pure_apply]
    rfl)
  (fun x f g => funext fun w => by
    rw [bind_apply, bind_apply, bind_apply]
    rcases x w with ⟨calls, ⟨a, w'⟩ | ⟨e, w'⟩⟩
    · dsimp only
      rw [bind_apply]
      rcases f a w' with ⟨calls', _ | _⟩ <;> simp
    · rfl)

end Evaluation

/-! ## The values of a run -/

mutual

/-- A value that another one stands for stands for itself. -/
theorem Value.Related.right {L L' : Link} (hi : ∀ {i j}, L.identity i j → L'.identity j j)
    (hf : ∀ {i j}, L.function i j → L'.function j j)
    (hc : ∀ {c d}, L.closure c d → L'.closure d d) {v v' : Value} (h : Value.Related L v v') :
    Value.Related L' v' v' := by
  cases v with
  | tuple vs =>
    cases h with
    | tuple hs => exact .tuple (Value.allRelated_right hi hf hc hs)
  | function f =>
    cases h with
    | function hg => exact .function (Function.Related.right hi hf hc hg)
  | struct f =>
    cases h with
    | struct hg => exact .struct (Function.Related.right hi hf hc hg)
  | library i name ss =>
    cases h with
    | library _ hid hs => exact .library name (hi hid) (SymbolsRelated.right hi hf hc hs)
  | _ => cases h; constructor
termination_by structural v

theorem Function.Related.right {L L' : Link} (hi : ∀ {i j}, L.identity i j → L'.identity j j)
    (hf : ∀ {i j}, L.function i j → L'.function j j)
    (hc : ∀ {c d}, L.closure c d → L'.closure d d) {f f' : Function} (h : Function.Related L f f') :
    Function.Related L' f' f' := by
  cases f with
  | native n =>
    cases h
    exact .native n
  | method i v m =>
    cases h with
    | method _ hid hv => exact .method m (hi hid) (Value.Related.right hi hf hc hv)
  | closure i c =>
    cases h with
    | closure hid hcl => exact .closure (hf hid) (hc hcl)
termination_by structural f

theorem Value.allRelated_right {L L' : Link} (hi : ∀ {i j}, L.identity i j → L'.identity j j)
    (hf : ∀ {i j}, L.function i j → L'.function j j)
    (hc : ∀ {c d}, L.closure c d → L'.closure d d) {vs vs' : List Value}
    (h : Value.AllRelated L vs vs') : Value.AllRelated L' vs' vs' := by
  cases vs with
  | nil =>
    cases h
    exact .nil
  | cons v vs =>
    cases h with
    | cons hv hs => exact .cons (Value.Related.right hi hf hc hv) (Value.allRelated_right hi hf hc hs)
termination_by structural vs

theorem SymbolsRelated.right {L L' : Link} (hi : ∀ {i j}, L.identity i j → L'.identity j j)
    (hf : ∀ {i j}, L.function i j → L'.function j j)
    (hc : ∀ {c d}, L.closure c d → L'.closure d d) {ss ss' : List (String × Value)}
    (h : SymbolsRelated L ss ss') : SymbolsRelated L' ss' ss' := by
  match ss, h with
  | [], .nil => exact .nil
  | (_, _) :: ss, .cons name hv hs =>
    exact .cons name (Value.Related.right hi hf hc hv) (SymbolsRelated.right hi hf hc hs)
termination_by structural ss

end

/-- A value that is not built in is looked up in the activations. -/
theorem Frame.find_of_nonneg (f : Frame) {id : ValueId} (h0 : 0 ≤ id) :
    f.find id = Run.find f.scope id := by
  have hb : id.isBuiltin = false := by simpa [ValueId.isBuiltin] using h0
  unfold Frame.find
  rw [hb]
  rfl

namespace Tandem

variable {t t' : Tandem} {h : SourceHost} {h' : Host}

/-! ## Outcomes -/

/-- What comes of an evaluation and a run that start together: related results, or the same error.
Either way both sides may go on together. -/
inductive Outcome (h : SourceHost) (h' : Host) (k : Nat) (t : Tandem) {α β : Type}
    (R : Tandem → α → β → Prop) :
    EStateM.Result Stop World α → EStateM.Result Stop Machine β → Prop where
  | ok (t' : Tandem) {a : α} {b : β} (hle : Le k t t') (ht : t'.Tied h h') (hr : R t' a b) :
    Outcome h h' k t R (.ok a t'.world) (.ok b t'.machine)
  | error (t' : Tandem) (e : Stop) (hle : Le k t t') (ht : t'.Tied h h') :
    Outcome h h' k t R (.error e t'.world) (.error e t'.machine)

/-- What comes of an evaluation and a run that start together, if the calls of the evaluation are
indifferent. -/
def Together (h : SourceHost) (h' : Host) (k : Nat) (t : Tandem) {α β : Type}
    (R : Tandem → α → β → Prop) (r : Calls × EStateM.Result Stop World α)
    (r' : EStateM.Result Stop Machine β) : Prop :=
  h.AllIndifferent r.1 → Outcome h h' k t R r.2 r'

section Outcomes

variable {k : Nat} {α β γ δ : Type} {R : Tandem → α → β → Prop} {S : Tandem → γ → δ → Prop}

/-- Later on, and with fewer activations left alone. -/
theorem Outcome.later {l : Nat} {r : EStateM.Result Stop World α}
    {r' : EStateM.Result Stop Machine β} (hle : Le l t t') (hk : l ≤ k)
    (hx : Outcome h h' k t' R r r') : Outcome h h' l t R r r' := by
  cases hx with
  | ok t'' hle' ht hr => exact .ok t'' (hle.trans (hle'.mono hk)) ht hr
  | error t'' e hle' ht => exact .error t'' e (hle.trans (hle'.mono hk)) ht

namespace Together

theorem ok (t' : Tandem) {calls : Calls} {a : α} {b : β} (hle : Le k t t') (ht : t'.Tied h h')
    (hr : R t' a b) : Together h h' k t R (calls, .ok a t'.world) (.ok b t'.machine) :=
  fun _ => .ok t' hle ht hr

theorem error (ht : t.Tied h h') {calls : Calls} (e : Stop) :
    Together h h' k t R (calls, .error e t.world) (.error e t.machine) :=
  fun _ => .error t e (.refl k t) ht

theorem pure (ht : t.Tied h h') {a : α} {b : β} (hr : R t a b) :
    Together h h' k t R ((Pure.pure a : Evaluation α) t.world) ((Pure.pure b : Run β) t.machine) :=
  .ok t (.refl k t) ht hr

theorem fail (ht : t.Tied h h') (e : RunError) :
    Together h h' k t R (Evaluation.fail e t.world) (Run.fail e t.machine) :=
  .error ht (.error e)

/-- Later on, and with fewer activations left alone. -/
theorem later {l : Nat} {r : Calls × EStateM.Result Stop World α}
    {r' : EStateM.Result Stop Machine β} (hle : Le l t t') (hk : l ≤ k)
    (hx : Together h h' k t' R r r') : Together h h' l t R r r' := fun hc => (hx hc).later hle hk

/-- One thing after another. -/
theorem bind {x : Evaluation α} {y : Run β} {f : α → Evaluation γ} {g : β → Run δ}
    (hx : Together h h' k t R (x t.world) (y t.machine))
    (hf : ∀ t' a b, Le k t t' → t'.Tied h h' → R t' a b →
      Together h h' k t' S (f a t'.world) (g b t'.machine)) :
    Together h h' k t S ((x >>= f) t.world) ((y >>= g) t.machine) := by
  intro hc
  obtain ⟨hcx, hcf⟩ := Evaluation.indifferent_of_bind hc
  have hout := hx hcx
  rw [Evaluation.bind_snd, Run.bind_apply]
  generalize hw : (x t.world).2 = r at hout ⊢
  generalize y t.machine = r' at hout ⊢
  cases hout with
  | ok t' hle ht hr => exact .later hle (Nat.le_refl k) (hf _ _ _ hle ht hr (hcf hw))
  | error t' e hle ht => exact .error t' e hle ht

/-- The machine does something before, of which the evaluation has the result. -/
theorem after {v : α} {y : Run β} {x : Evaluation γ} {g : β → Run δ}
    (hy : Together h h' k t R ((Pure.pure v : Evaluation α) t.world) (y t.machine))
    (hx : ∀ t' b, Le k t t' → t'.Tied h h' → R t' v b →
      Together h h' k t' S (x t'.world) (g b t'.machine)) :
    Together h h' k t S (x t.world) ((y >>= g) t.machine) := by
  intro hc
  rw [Run.bind_apply]
  have hy' := hy fun _ hmem => by cases hmem
  rw [Evaluation.pure_apply] at hy'
  generalize t.world = w at hy' hc ⊢
  generalize y t.machine = r at hy'
  cases hy' with
  | ok t' hle ht hr => exact .later hle (Nat.le_refl k) (hx t' _ hle ht hr hc)

/-- The results of both sides, be they values or errors. -/
theorem attempt {x : Evaluation α} {y : Run β}
    (hx : Together h h' k t R (x t.world) (y t.machine)) :
    Together h h' k t (fun t' => Agree (R t')) (x.attempt t.world) (y.attempt t.machine) := by
  rw [Evaluation.attempt, Run.attempt_apply]
  generalize x t.world = r at hx
  generalize y t.machine = r' at hx
  obtain ⟨calls, r⟩ := r
  cases r with
  | ok a w =>
    intro hc
    cases hx hc with
    | ok t' hle ht hr => exact .ok t' hle ht (.ok hr)
  | error e w =>
    cases e with
    | error e =>
      intro hc
      cases hx hc with
      | error t' _ hle ht => exact .ok t' hle ht (.error e)
    | exhausted =>
      intro hc
      cases hx hc with
      | error t' _ hle ht => exact .error t' .exhausted hle ht

end Together

end Outcomes

/-! ## Operations that leave activations alone -/

namespace Tied

variable (ht : t.Tied h h')
include ht

/-- What stands for something stands for itself on the run's side. -/
theorem same : (∀ {i i'}, t.link.identity i i' → (Link.same t.sites t.machine).identity i' i') ∧
    (∀ {i i'}, t.link.function i i' → (Link.same t.sites t.machine).function i' i') ∧
    ∀ {c c'}, t.link.closure c c' → (Link.same t.sites t.machine).closure c' c' :=
  ⟨fun hp => ⟨rfl, (ht.pairs_lt hp).2⟩, fun hp => ⟨rfl, (ht.copies_lt hp).2⟩,
    fun hc => ⟨rfl, hc.fine⟩⟩

/-- Values of the run that something stands for are fine. -/
theorem fine_of_related {v v' : Value} (hv : Value.Related t.link v v') :
    v'.Fine t.sites t.machine := hv.right ht.same.1 ht.same.2.1 ht.same.2.2

theorem allFine_of_related {vs vs' : List Value} (hv : Value.AllRelated t.link vs vs') :
    Value.AllRelated (Link.same t.sites t.machine) vs' vs' :=
  Value.allRelated_right ht.same.1 ht.same.2.1 ht.same.2.2 hv

/-- Both sides go on, and the activations stay what they are. -/
theorem of_le {k : Nat} (hle : Le k t t') (hs : t'.sites = t.sites)
    (hm : t'.machine.activations = t.machine.activations)
    (hw : t'.world.activations = t.world.activations) (hfine : t'.machine.Fine t'.sites)
    (hpairs : ∀ {i i'}, t'.pairs i i' → i < t'.world.identities ∧ i' < t'.machine.identities)
    (hcopies : ∀ {i i'}, t'.copies i i' → i < t'.world.identities ∧ i' < t'.machine.identities)
    (hprinted : t'.machine.printed = t'.world.printed)
    (hloads : t'.machine.loads = t'.world.loads) : t'.Tied h h' := by
  have hd (scope j : Nat) : t'.world.declared? scope j = t.world.declared? scope j := by
    rw [World.declared?, World.declared?, hw]
  refine ⟨hfine, by rw [hw, hm, ht.size], hpairs, hcopies, hprinted, hloads,
    fun {scope j d} hx => ?_, fun ha hp => ?_, hle.serves ht.serves⟩
  · rw [hd] at hx
    obtain ⟨g, outer, id, body, n, T, hl, hb, hp⟩ := ht.declared hx
    rw [hs]
    refine ⟨g, outer, id, body, n, T, hl, hb, hle.prepared ht.fine hp fun p hp => ?_⟩
    cases hp
    obtain ⟨ds, hds, -⟩ := Option.bind_eq_some_iff.mp hx
    rw [← ht.size]
    exact (Array.getElem?_eq_some_iff.mp hds).1
  · rw [hm] at ha
    rw [hs]
    obtain ⟨g, g', outer, j, id, hl, hl', hb, hi⟩ := ht.parent ha hp
    exact ⟨g, g', outer, j, id, hl, hl', hb, hle.introduced hi⟩

/-- Something new on the run's side that leaves activations and images alone, and something on the
evaluation's side that leaves activations alone. -/
theorem of_same {w : World} {m : Machine} (hw : w.activations = t.world.activations)
    (hwi : t.world.identities ≤ w.identities) (hm : m.activations = t.machine.activations)
    (hi : m.images = t.machine.images) (hmi : t.machine.identities ≤ m.identities)
    (hprinted : m.printed = w.printed) (hloads : m.loads = w.loads) :
    Le t.machine.activations.size t { t with world := w, machine := m } ∧
      Tied { t with world := w, machine := m } h h' := by
  have hle : Le t.machine.activations.size t { t with world := w, machine := m } := by
    refine ⟨.of_same hm hi hmi, id, id, hwi, fun {scope j d} hd => ?_, fun i _ => by rw [hm],
      fun i _ => by rw [hw]⟩
    rw [World.declared?] at hd ⊢
    rw [hw]
    exact hd
  have later {i i' : Nat} (hp : i < t.world.identities ∧ i' < t.machine.identities) :
      i < w.identities ∧ i' < m.identities :=
    ⟨Nat.lt_of_lt_of_le hp.1 hwi, Nat.lt_of_lt_of_le hp.2 hmi⟩
  exact ⟨hle, ht.of_le hle rfl hm hw (ht.fine.of_same hm hi hmi) (fun hp => later (ht.pairs_lt hp))
    (fun hp => later (ht.copies_lt hp)) hprinted hloads⟩

/-- The next identities of both sides stand for each other. -/
def paired : Tandem where
  pairs i i' := t.pairs i i' ∨ i = t.world.identities ∧ i' = t.machine.identities
  pairs_iff := by
    rintro i i' j j' (hi | ⟨rfl, rfl⟩) (hj | ⟨rfl, rfl⟩)
    · exact t.pairs_iff hi hj
    · have := ht.pairs_lt hi
      omega
    · have := ht.pairs_lt hj
      omega
    · simp
  copies := t.copies
  copies_eq := t.copies_eq
  sites := t.sites
  world := { t.world with identities := t.world.identities + 1 }
  machine := t.machine.minted 1

theorem le_paired : Le t.machine.activations.size t ht.paired :=
  ⟨.minted _ _, .inl, id, Nat.le_succ _, id, fun _ _ => rfl, fun _ _ => rfl⟩

theorem tied_paired : ht.paired.Tied h h' := by
  have later {i i' : Nat} (hp : i < t.world.identities ∧ i' < t.machine.identities) :
      i < t.world.identities + 1 ∧ i' < t.machine.identities + 1 := by omega
  refine ht.of_le ht.le_paired rfl rfl rfl (ht.fine.minted 1) (fun hp => ?_)
    (fun hp => later (ht.copies_lt hp)) ht.printed ht.loads
  rcases hp with hp | ⟨rfl, rfl⟩
  · exact later (ht.pairs_lt hp)
  · exact ⟨Nat.lt_succ_self _, Nat.lt_succ_self _⟩

/-- Both sides give out an identity. -/
theorem mint : Together h h' t.machine.activations.size t (fun t' i i' => t'.pairs i i')
    (Evaluation.fresh t.world) (Run.fresh t.machine) :=
  .ok ht.paired ht.le_paired ht.tied_paired (.inr ⟨rfl, rfl⟩)

/-- The next identity of the machine is one more of a function of the evaluation. -/
def copied {i : Nat} (hi : i < t.world.identities) : Tandem where
  pairs := t.pairs
  pairs_iff := t.pairs_iff
  copies j j' := t.copies j j' ∨ j = i ∧ j' = t.machine.identities
  copies_eq := by
    rintro j j' k (hj | ⟨rfl, rfl⟩) (hk | ⟨rfl, hk⟩)
    · exact t.copies_eq hj hk
    · have := ht.copies_lt hj
      omega
    · have := ht.copies_lt hk
      omega
    · rfl
  sites := t.sites
  world := t.world
  machine := t.machine.minted 1

section Copied

variable {i : Nat} (hi : i < t.world.identities)

theorem le_copied : Le t.machine.activations.size t (ht.copied hi) :=
  ⟨.minted _ _, id, .inl, Nat.le_refl _, id, fun _ _ => rfl, fun _ _ => rfl⟩

theorem tied_copied : (ht.copied hi).Tied h h' := by
  have later {j j' : Nat} (hp : j < t.world.identities ∧ j' < t.machine.identities) :
      j < t.world.identities ∧ j' < t.machine.identities + 1 := by omega
  refine ht.of_le (ht.le_copied hi) rfl rfl rfl (ht.fine.minted 1)
    (fun hp => later (ht.pairs_lt hp)) (fun hp => ?_) ht.printed ht.loads
  rcases hp with hp | ⟨rfl, rfl⟩
  · exact later (ht.copies_lt hp)
  · exact ⟨hi, Nat.lt_succ_self _⟩

end Copied

theorem print (text : String) : Together h h' t.machine.activations.size t (fun _ _ _ => True)
    (Evaluation.print text t.world) (Run.print text t.machine) := by
  obtain ⟨hle, htied⟩ := ht.of_same (w := { t.world with printed := t.world.printed.push text })
    (m := { t.machine with printed := t.machine.printed.push text }) rfl (Nat.le_refl _) rfl rfl
    (Nat.le_refl _) (congrArg (·.push text) ht.printed) ht.loads
  exact .ok _ hle htied trivial

theorem noteLoad (target : String) : Together h h' t.machine.activations.size t (fun _ _ _ => True)
    (Evaluation.noteLoad target t.world) (Run.noteLoad target t.machine) := by
  obtain ⟨hle, htied⟩ := ht.of_same (w := { t.world with loads := t.world.loads.push target })
    (m := { t.machine with loads := t.machine.loads.push target }) rfl (Nat.le_refl _) rfl rfl
    (Nat.le_refl _) ht.printed (congrArg (·.push target) ht.loads)
  exact .ok _ hle htied trivial

end Tied

/-! ## Reading -/

/-- A number can be read: what is found under it has been written, and if it is that of a function,
all that the function can reach has been declared. -/
structure Readable (t : Tandem) (scope : Nat) (id : ValueId) : Prop where
  found : 0 ≤ id → Found t.sites t.machine id scope
  introduced : ∀ {holder j : Nat} {g body : Graph} {outer : List Graph}, 0 ≤ id →
    t.machine.holder? id scope = some holder → (t.sites holder).levels = g :: outer →
    g.blocks[j]? = some (.function id body) → t.Introduced g holder j

section Read

variable (ht : t.Tied h h')
include ht

theorem Tied.keeps {scope : Nat} {v v' : Value} (hv : Value.Related t.link v v') :
    t.Keeps scope v (.keep scope v') := by
  cases hv with
  | function hf =>
    cases hf with
    | @closure i i' c c' hi hc =>
      rw [Slot.keep]
      split
      case isTrue he =>
        obtain ⟨graph, unit, scope', id⟩ := c'
        obtain rfl : scope' = scope := he
        exact .declared (ht.copies_lt hi).1 hc
      case isFalse => exact .value (.function (.closure hi hc))
    | native n => exact .value (.function (.native n))
    | method m hi hv => exact .value (.function (.method m hi hv))
  | unit => exact .value .unit
  | bool b => exact .value (.bool b)
  | int n => exact .value (.int n)
  | float x => exact .value (.float x)
  | str s => exact .value (.str s)
  | tuple hs => exact .value (.tuple hs)
  | struct hf => exact .value (.struct hf)
  | library name hi hs => exact .value (.library name hi hs)

/-- The machine reads what it keeps for a value of the evaluation. -/
theorem Tied.reply {scope : Nat} {v : Value} {s : Slot} (hk : t.Keeps scope v s) {y : Run Value}
    (hy : y t.machine = .ok (s.reply scope t.machine) (t.machine.minted s.mints)) :
    Together h h' t.machine.activations.size t (fun t' v v' => Value.Related t'.link v v')
      ((pure v : Evaluation Value) t.world) (y t.machine) := by
  rw [hy]
  cases hk with
  | value hv => exact .ok t (.refl _ t) ht hv
  | declared hi hc =>
    exact .ok (ht.copied hi) (ht.le_copied hi) (ht.tied_copied hi)
      (.function (.closure (.inr ⟨rfl, rfl⟩) ((ht.le_copied hi).stands hc)))

/-- The number of a value is read on the machine. -/
theorem Tied.read {f : Frame} {v : Value} {id : ValueId} (hm : t.Means f.scope v id)
    (hu : (t.sites f.scope).unit = f.unit) (hr : t.Readable f.scope id) :
    Together h h' t.machine.activations.size t (fun t' v v' => Value.Related t'.link v v')
      ((pure v : Evaluation Value) t.world) (f.find id t.machine) := by
  have find {holder : Nat} {s : Slot} (h0 : 0 ≤ id)
      (hh : t.machine.holder? id f.scope = some holder) (hs : t.machine.slot? holder id = some s) :
      f.find id t.machine = .ok (s.reply holder t.machine) (t.machine.minted s.mints) := by
    rw [f.find_of_nonneg h0, find_apply, hh]
    dsimp only
    rw [hs]
    cases s <;> rfl
  cases hm with
  | @builtin v v' _ hid hv hrel =>
    have hb : id.isBuiltin = true := by simpa [ValueId.isBuiltin] using hid
    rw [f.find_of_isBuiltin hb]
    rw [Machine.image, hu] at hv
    rw [hv]
    exact .ok t (.refl _ t) ht hrel
  | kept hid hh hs hk => exact ht.reply hk (find hid hh hs)
  | @declared holder j i g body outer _ params hid hh hl hb hp hi =>
    obtain ⟨holder', s, hh', -, hs, hsf⟩ := hr.found hid
    obtain rfl : holder = holder' := Option.some.inj (hh.symm.trans hh')
    -- what has been written there is the declaration of the function
    obtain ⟨a, ha, hsa⟩ := Machine.slot?_eq_some_iff.mp hs
    obtain ⟨g', outer', haf⟩ := ht.fine.activation ha
    obtain ⟨rfl, rfl⟩ := List.cons_eq_cons.mp (haf.levels.symm.trans hl)
    have hid' : id = g'.slot (g'.params.toNat + j) := haf.id_eq hb
    obtain rfl := haf.function hb (hid' ▸ hsa)
    refine ht.reply (.declared hi ?_) (find hid hh hs)
    exact ⟨rfl, rfl, hp.symm, hsf, g', outer', hl, hb, hr.introduced hid hh hl hb⟩

end Read

/-! ## Scripts -/

/-- Scripts that are alike, however much will stand for each other. -/
def AlikeFrom (t : Tandem) (s s' : Script Value) : Prop :=
  ∀ {L : Link}, t.link.Le L → Script.Alike L s s'

/-- Related requests are answered alike. -/
def Answers (h : SourceHost) (h' : Host) (answer : Request → Evaluation Value)
    (answer' : Request → Run Value) : Prop :=
  ∀ {t : Tandem} {r r' : Request}, t.Tied h h' → Request.Related t.link r r' →
    Together h h' t.machine.activations.size t (fun t' v v' => Value.Related t'.link v v')
      (answer r t.world) (answer' r' t.machine)

/-- **Scripts that are alike come to the same**, if requests are answered alike. -/
theorem Answers.script {answer : Request → Evaluation Value} {answer' : Request → Run Value}
    (ha : Answers h h' answer answer') (depth : Nat) {s s' : Script Value} (ht : t.Tied h h')
    (hs : t.AlikeFrom s s') :
    Together h h' t.machine.activations.size t (fun t' v v' => Value.Related t'.link v v')
      (s.evaluate answer depth t.world) (s'.run answer' depth t.machine) := by
  induction s generalizing s' t with
  | done v =>
    cases hs (.refl _) with
    | done hv => exact .pure ht hv
  | fail e =>
    cases hs (.refl _) with
    | fail => exact .fail ht e
  | ask r next ih =>
    cases hs (.refl _) with
    | ask hr _ =>
      refine (ha ht hr).attempt.bind fun t' x x' hle ht' hx => ?_
      refine .later (.refl _ _) hle.grows.size_le (ih x ht' fun {L} hL => ?_)
      cases hs (hle.link.trans hL) with
      | ask _ hn => exact hn x x' (hx.mono fun _ _ hv => hv.mono hL)
  | print text next ih =>
    cases hs (.refl _) with
    | print =>
      refine (ht.print text).bind fun t' _ _ hle ht' _ => ?_
      refine .later (.refl _ _) hle.grows.size_le (ih ht' fun {L} hL => ?_)
      cases hs (hle.link.trans hL) with
      | print _ hn => exact hn
  | mint next ih =>
    cases hs (.refl _) with
    | mint =>
      refine ht.mint.bind fun t' i i' hle ht' hi => ?_
      refine .later (.refl _ _) hle.grows.size_le (ih i ht' fun {L} hL => ?_)
      cases hs (hle.link.trans hL) with
      | mint hn => exact hn i i' (hL.identity hi)
  | depth next ih =>
    cases hs (.refl _) with
    | @depth _ next' =>
      show Together h h' _ t _ ((next depth).evaluate answer depth t.world)
        ((next' depth).run answer' depth t.machine)
      refine ih depth ht fun {L} hL => ?_
      cases hs hL with
      | depth hn => exact hn depth

end Tandem

end Dataflow
