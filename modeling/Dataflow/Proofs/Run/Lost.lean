import Dataflow.Proofs.Run.Later
import Dataflow.Proofs.Run.Strict

/-!
# Runs that cannot succeed any more

Once a block has failed, the graph it belongs to will fail, and so will all that waits for it, where
errors are handed on. The same holds when a graph was entered whose numbers do not fit: one of its blocks cannot be written.

* `Work.Lost`: something has failed, or a graph under way is in a hopeless state;
* `Graph.Cramped`: a graph of which some block cannot be written;
* `Work.Offers.lost_of_error`, `Work.Offers.lost_of_not_fits`: how things get lost;
* **`Work.Steps.not_done_of_lost`**: what is lost does not come to a value.
-/

namespace Dataflow

open Run

mutual

/-- Something has failed, or there is a graph under way in a state `C` that is hopeless. -/
def Work.Lost (C : Graph → Frame → (Nat → Job) → Prop) : Work → Prop
  | .script _ (.fail _) => True
  | .script .. | .boot _ | .call .. => False
  | .bind _ inner _ | .load _ _ inner => inner.Lost C
  | .level g f jobs failure =>
    failure.isSome = true ∨ C g f jobs ∨ ∃ i < g.blocks.length, (jobs i).Lost C

/-- Something has failed in the work of a block. -/
def Job.Lost (C : Graph → Frame → (Nat → Job) → Prop) : Job → Prop
  | .failed _ => True
  | .working w => w.Lost C
  | .waiting | .reading .. | .selecting .. | .storing _ | .finished => False

end

/-- Something has failed. -/
def Work.Failing (w : Work) : Prop := w.Lost fun _ _ _ => False

/-- Something has failed in the work of a block. -/
def Job.Failing (j : Job) : Prop := j.Lost fun _ _ _ => False

section Lost

variable {C C' : Graph → Frame → (Nat → Job) → Prop}

theorem Work.not_lost_script {depth : Nat} {s : Script Value} (hs : ∀ e, s ≠ .fail e) :
    ¬ (Work.script depth s).Lost C := by
  rw [Work.Lost]
  · exact id
  · exact hs

mutual

theorem Work.Lost.mono (hC : ∀ g f jobs, C g f jobs → C' g f jobs) {w : Work} (hw : w.Lost C) :
    w.Lost C' := by
  cases w with
  | script depth s =>
    cases s with
    | fail e =>
      rw [Work.Lost]
      trivial
    | _ => exact (Work.not_lost_script (fun e he => by cases he) hw).elim
  | boot | call =>
    rw [Work.Lost] at hw
    exact hw.elim
  | bind depth inner next =>
    rw [Work.Lost] at hw ⊢
    exact Work.Lost.mono hC hw
  | load target quiet inner =>
    rw [Work.Lost] at hw ⊢
    exact Work.Lost.mono hC hw
  | level g f jobs failure =>
    rw [Work.Lost] at hw ⊢
    rcases hw with hf | hc | ⟨i, hi, hj⟩
    · exact .inl hf
    · exact .inr (.inl (hC g f jobs hc))
    · exact .inr (.inr ⟨i, hi, Job.Lost.mono hC hj⟩)

theorem Job.Lost.mono (hC : ∀ g f jobs, C g f jobs → C' g f jobs) {j : Job} (hj : j.Lost C) :
    j.Lost C' := by
  cases j with
  | failed e =>
    rw [Job.Lost]
    trivial
  | working w =>
    rw [Job.Lost] at hj ⊢
    exact Work.Lost.mono hC hj
  | _ =>
    rw [Job.Lost] at hj
    exact hj.elim

end

@[simp]
theorem Work.lost_fail (C : Graph → Frame → (Nat → Job) → Prop) (depth : Nat) (e : RunError) :
    (Work.script depth (.fail e)).Lost C := by
  rw [Work.Lost]
  trivial

end Lost

/-! ## Machines only grow -/

/-- A computation that leaves activations and images alone. -/
def Run.Still {α : Type} (x : Run α) : Prop :=
  ∀ m r m', Yields (x m) r m' → m'.activations = m.activations ∧
    m'.images = m.images ∧ m.identities ≤ m'.identities

namespace Run.Still

variable {α : Type}

theorem read (scope : Nat) (id : ValueId) : Still (read scope id) := by
  intro m r m' hr
  rw [read_apply] at hr
  split at hr
  all_goals
    cases hr
    exact ⟨rfl, rfl, by simp⟩

theorem find (scope : Nat) (id : ValueId) : Still (Run.find scope id) := by
  intro m r m' hr
  rw [find_apply] at hr
  split at hr
  · cases hr
    exact ⟨rfl, rfl, Nat.le_refl _⟩
  · split at hr
    all_goals
      cases hr
      exact ⟨rfl, rfl, by simp⟩

theorem of_peeks {x : Run α} {f : Frame} {φ : Image → Except RunError α} (hx : f.Peeks x φ) :
    Still x := by
  intro m r m' hr
  rw [hx m] at hr
  cases hi : φ (m.images.getD f.unit default) with
  | ok a =>
    rw [hi] at hr
    cases hr
    exact ⟨rfl, rfl, Nat.le_refl _⟩
  | error e =>
    rw [hi] at hr
    cases hr
    exact ⟨rfl, rfl, Nat.le_refl _⟩

theorem frame_find (f : Frame) (id : ValueId) : Still (f.find id) := by
  by_cases h0 : id < 0
  · exact .of_peeks (f.peeks_find h0)
  · rw [f.find_eq h0]
    exact .find f.scope id

theorem fieldName (f : Frame) (id : ConstantId) : Still (f.fieldName id) := by
  obtain ⟨φ, hφ⟩ := f.peeks_fieldName id
  exact .of_peeks hφ

end Run.Still

/-- Either something is written or the machine is as it was. -/
theorem Run.put_cases {m m' : Machine} {scope : Nat} {id : ValueId} {s : Slot}
    {r : Except RunError Unit} (hr : Yields (put scope id s m) r m') :
    m' = m ∨ ∃ a o, m.activations[scope]? = some a ∧ a.offset? id = some o ∧ a.slot? id = none ∧
      m' = m.store scope o s := by
  generalize hx : put scope id s m = x at hr
  cases hr with
  | ok => exact .inr (put_eq_ok_iff.mp hx)
  | error e =>
    refine .inl ?_
    unfold put at hx
    split at hx
    · cases hx
      rfl
    · split at hx
      · cases hx
        rfl
      · cases hx

/-- A computation that loses nothing. -/
def Run.Growing {α : Type} (x : Run α) : Prop :=
  ∀ sites m r m', Yields (x m) r m' → Grows sites m sites m'

namespace Run.Growing

variable {α β : Type}

theorem of_still {x : Run α} (h : Still x) : Growing x := by
  intro sites m r m' hr
  obtain ⟨ha, hi, hn⟩ := h m r m' hr
  exact .of_same ha hi hn

theorem bind {x : Run α} {y : α → Run β} (hx : Growing x) (hy : ∀ a, Growing (y a)) :
    Growing (x >>= y) := by
  intro sites m r m' hr
  rcases hr.bind_cases with ⟨a, m₁, ha, hr⟩ | ⟨e, he, rfl⟩
  · exact (hx sites m _ _ ha).trans (hy a sites _ _ _ hr)
  · exact hx sites m _ _ he

theorem pure (a : α) : Growing (pure a : Run α) := by
  intro sites m r m' hr
  cases hr
  exact .refl sites m

theorem fail (e : RunError) : Growing (fail e : Run α) := by
  intro sites m r m' hr
  cases hr
  exact .refl sites m

theorem put (scope : Nat) (id : ValueId) (s : Slot) : Growing (put scope id s) := by
  intro sites m r m' hr
  rcases put_cases hr with rfl | ⟨a, o, ha, ho, hn, rfl⟩
  · exact .refl sites m'
  · exact .store ha ho hn s

theorem bindArguments (scope : Nat) (id : ValueId) (vs : List Value) :
    Growing (bindArguments scope id vs) := by
  induction vs generalizing id with
  | nil => exact pure ()
  | cons v vs ih => exact bind (put scope id _) fun _ => ih (id + 1)

theorem enter (parent : Option Nat) (first : ValueId) (count : Nat) :
    Growing (enter parent first count) := by
  intro sites m r m' hr
  cases hr
  refine ⟨Nat.le_refl _, id, fun _ => rfl, fun {scope a} h => ⟨a, ?_, rfl, id⟩⟩
  have hlt := (Array.getElem?_eq_some_iff.mp h).1
  show (m.activations.push _)[scope]? = some a
  rw [Array.getElem?_push, if_neg (by omega), h]

end Run.Growing

/-- Operations lose nothing. -/
theorem Op.growing {α : Type} (op : Op α) : Growing op.run := by
  cases op with
  | idle => exact .pure ()
  | find f id => exact .of_still (.frame_find f id)
  | constant f id => exact .of_still (.of_peeks (f.peeks_constant id))
  | fieldName f id => exact .of_still (.fieldName f id)
  | mint | print | note =>
    refine .of_still fun m r m' hr => ?_
    cases hr
    exact ⟨rfl, rfl, by simp⟩
  | addImage image =>
    intro sites m r m' hr
    cases hr
    exact .addImage image
  | enter g unit depth parent args =>
    exact .bind (.enter parent g.first g.slotCount) fun scope =>
      .bind (.bindArguments scope g.first args) fun _ => .pure _
  | put scope id s => exact .put scope id s
  | result scope id =>
    refine .bind (.of_still (.read scope id)) fun v => ?_
    cases v with
    | none => exact .fail _
    | some v => exact .pure v

/-! ## Graphs whose numbers do not fit -/

/-- Some block of a graph under way cannot be written: its number has no place, or it has been
written, or another block that has not been written has the same number. -/
def Graph.Cramped (m : Machine) (g : Graph) (f : Frame) (jobs : Nat → Job) : Prop :=
  ∃ (i : Nat) (b : Block) (a : Activation), g.blocks[i]? = some b ∧ jobs i ≠ .finished ∧
    m.activations[f.scope]? = some a ∧ (a.offset? b.id = none ∨ (a.slot? b.id).isSome = true ∨
      ∃ (j : Nat) (b' : Block), j ≠ i ∧ g.blocks[j]? = some b' ∧ b'.id = b.id ∧ jobs j ≠ .finished)

namespace Graph

variable {m m' : Machine} {g : Graph} {f : Frame} {jobs jobs' : Nat → Job}

theorem Cramped.mono (hc : g.Cramped m f jobs) {sites sites' : Nat → Site}
    (hg : Grows sites m sites' m') (hj : ∀ i, jobs i ≠ .finished → jobs' i ≠ .finished) :
    g.Cramped m' f jobs' := by
  obtain ⟨i, b, a, hb, hi, ha, hc⟩ := hc
  obtain ⟨a', ha', hshape, hk⟩ := hg.activations ha
  refine ⟨i, b, a', hb, hj i hi, ha', ?_⟩
  rcases hc with ho | hs | ⟨j, b', hne, hb', he, hj'⟩
  · exact .inl ((Activation.offset?_congr hshape b.id).trans ho)
  · obtain ⟨s, hs⟩ := Option.isSome_iff_exists.mp hs
    rw [hk hs]
    exact .inr (.inl rfl)
  · exact .inr (.inr ⟨j, b', hne, hb', he, hj j hj'⟩)

/-- When a block that shares its number with another one is written, the other one is stuck. -/
theorem Cramped.put (hc : g.Cramped m f jobs) {i : Nat} {b : Block} {s : Slot} {u : Unit}
    (hb : g.blocks[i]? = some b) (hr : Run.put f.scope b.id s m = .ok u m') {x : Job} :
    g.Cramped m' f (Function.update jobs i x) := by
  have hg := Run.Growing.put f.scope b.id s (fun _ => default) m _ m' (.of_ok hr)
  obtain ⟨a, o, ha, ho, hn, rfl⟩ := put_eq_ok_iff.mp hr
  obtain ⟨a', ha', hshape, hk⟩ := hg.activations ha
  have hwritten : (a'.slot? b.id).isSome = true := by
    rw [← Machine.slot?_eq_of_activation ha', Machine.slot?_store ha ho, if_pos ⟨rfl, rfl⟩]
    rfl
  obtain ⟨j, b', a₁, hb', hj, ha₁, hc⟩ := hc
  obtain rfl : a = a₁ := Option.some.inj (ha.symm.trans ha₁)
  by_cases hij : j = i
  · subst hij
    obtain rfl : b = b' := Option.some.inj (hb.symm.trans hb')
    rcases hc with ho' | hs | ⟨l, b'', hne, hb'', he, hl⟩
    · cases ho.symm.trans ho'
    · rw [hn] at hs
      cases hs
    · exact ⟨l, b'', a', hb'', by rwa [Function.update_of_ne hne], ha', .inr (.inl (he ▸ hwritten))⟩
  · refine ⟨j, b', a', hb', by rwa [Function.update_of_ne hij], ha', ?_⟩
    rcases hc with ho' | hs | ⟨l, b'', hne, hb'', he, hl⟩
    · exact .inl ((Activation.offset?_congr hshape b'.id).trans ho')
    · obtain ⟨s', hs⟩ := Option.isSome_iff_exists.mp hs
      rw [hk hs]
      exact .inr (.inl rfl)
    · by_cases hil : l = i
      · subst hil
        obtain rfl : b = b'' := Option.some.inj (hb.symm.trans hb'')
        exact .inr (.inl (he ▸ hwritten))
      · exact .inr (.inr ⟨l, b'', hne, hb'', he, by rwa [Function.update_of_ne hil]⟩)

/-- The first position whose number does not fit has no place, or shares it with the first one. -/
theorem slot_cramped (hf : ¬ g.Fits) : ∃ n < g.slotCount, 0 < n ∧
    ((∀ {a : Activation}, a.first = g.first → a.offset? (g.slot n) = none) ∨
      g.slot n = g.slot 0 ∧ g.params.toNat < n) := by
  unfold Fits at hf
  have hlo := g.first.le_toInt
  have hhi := g.first.toInt_lt
  obtain ⟨n, hn⟩ : ∃ n : Nat, g.first.toInt + n = 2 ^ 31 :=
    ⟨(2 ^ 31 - g.first.toInt).toNat, by omega⟩
  have hslot : (g.slot n).toInt = -2 ^ 31 := by
    rw [slot, Int32.toInt_add, Int32.toInt_ofNat', Int32.size, Int.add_bmod_bmod, hn]
    rfl
  refine ⟨n, by omega, by omega, ?_⟩
  by_cases hmin : g.first.toInt = -2 ^ 31
  · refine .inr ⟨Int32.toInt.inj ?_, ?_⟩
    · rw [hslot, show g.slot 0 = g.first from Int32.add_zero _, hmin]
    · have := g.params.toNat_lt
      omega
  · refine .inl fun {a} ha => ?_
    unfold Activation.offset?
    dsimp only
    rw [hslot, ha, if_neg (by omega)]

/-- Arguments that could be written are there. -/
theorem isSome_of_bindArguments {scope n : Nat} {vs : List Value} {u : Unit}
    (hr : bindArguments scope (g.slot n) vs m = .ok u m') {k : Nat} (hk : n ≤ k)
    (hk' : k < n + vs.length) : (m'.slot? scope (g.slot k)).isSome = true := by
  induction vs generalizing n m with
  | nil =>
    simp only [List.length_nil] at hk'
    omega
  | cons v vs ih =>
    simp only [List.length_cons] at hk'
    rcases (Yields.of_ok hr).bind_cases with ⟨⟨⟩, m₁, hput, hrest⟩ | ⟨e, -, he⟩
    · rw [slot_add_one] at hrest
      by_cases hkn : k = n
      · subst hkn
        have hg := Growing.bindArguments scope _ vs (fun _ => default) m₁ _ m' hrest
        refine hg.slot?_isSome ?_
        generalize hx : Run.write scope (g.slot k) v m = x at hput
        cases hput
        obtain ⟨a, o, ha, ho, -, rfl⟩ := put_eq_ok_iff.mp hx
        rw [Machine.slot?_store ha ho, if_pos ⟨rfl, rfl⟩]
        rfl
      · generalize hx : bindArguments scope (g.slot (n + 1)) vs m₁ = x at hrest
        cases hrest
        exact ih hx (by omega) (by omega)
    · cases he

/-- A graph that was entered although its numbers do not fit. -/
theorem cramped_of_not_fits (hb : g.Built) (hne : g.blocks ≠ []) (hf : ¬ g.Fits)
    {unit depth : Nat} {parent : Option Nat} {args : List Value}
    (hlen : args.length = g.params.toNat) {f : Frame}
    (hr : Yields ((Op.enter g unit depth parent args).run m) (.ok f) m') :
    g.Cramped m' f fun _ => .waiting := by
  rcases hr.bind_cases with ⟨scope, m₁, henter, hr⟩ | ⟨e, -, he⟩
  case inr => cases he
  cases henter
  rcases hr.bind_cases with ⟨⟨⟩, m₂, hargs, hr⟩ | ⟨e, -, he⟩
  case inr => cases he
  cases hr
  have hnew : (m.grow (.blank parent g.first g.slotCount)).activations[m.activations.size]? =
      some (.blank parent g.first g.slotCount) := by
    rw [Machine.activations_grow, if_pos rfl]
  obtain ⟨a, ha, hshape, -⟩ :=
    (Growing.bindArguments _ _ args (fun _ => default) _ _ m' hargs).activations hnew
  have hfirst : a.first = g.first := (Activation.shape_eq hshape).2.1
  have hwritten {k : Nat} (hk : k < g.params.toNat) : (a.slot? (g.slot k)).isSome = true := by
    rw [← Machine.slot?_eq_of_activation ha]
    rw [show g.first = g.slot 0 from (Int32.add_zero _).symm] at hargs
    generalize hx : bindArguments _ (g.slot 0) args _ = x at hargs
    cases hargs
    exact isSome_of_bindArguments hx (Nat.zero_le k) (by omega)
  have hblock {i : Nat} (hi : i < g.blocks.length) :
      g.blocks[i].id = g.slot (g.params.toNat + i) := by
    rw [hb.level.id_eq (List.getElem?_eq_getElem hi), base_add]
  have hpos : 0 < g.blocks.length := List.length_pos_iff.mpr hne
  obtain ⟨n, hn, h0, hc⟩ := slot_cramped hf
  unfold Level.slotCount at hn
  -- Position `n` belongs to a block, since all parameters have been written.
  obtain ⟨i, rfl⟩ : ∃ i, n = g.params.toNat + i := by
    refine Nat.exists_eq_add_of_le (Nat.le_of_not_lt fun hlt => ?_)
    rcases hc with hc | ⟨-, hle⟩
    · obtain ⟨s, hs⟩ := Option.isSome_iff_exists.mp (hwritten hlt)
      obtain ⟨o, ho, -⟩ := Activation.slot?_eq_some_iff.mp hs
      cases (hc hfirst).symm.trans ho
    · omega
  have hi : i < g.blocks.length := by omega
  refine ⟨i, g.blocks[i], a, List.getElem?_eq_getElem hi, nofun, ha, ?_⟩
  rw [hblock hi]
  rcases hc with hc | ⟨heq, hlt⟩
  · exact .inl (hc hfirst)
  · rw [heq]
    by_cases hp : 0 < g.params.toNat
    · exact .inr (.inl (hwritten hp))
    · refine .inr (.inr ⟨0, g.blocks[0], by omega, List.getElem?_eq_getElem hpos, ?_, nofun⟩)
      rw [hblock hpos, show g.params.toNat + 0 = 0 by omega]

end Graph

/-! ## Lost for good -/

/-- Something has failed, or a block of a graph under way cannot be written. -/
abbrev Work.Hopeless (m : Machine) (w : Work) : Prop := w.Lost fun g f jobs => g.Cramped m f jobs

section Jobs

variable {C : Graph → Frame → (Nat → Job) → Prop} {f : Frame} {id : ValueId} {j : Job} {α : Type}
  {op : Op α} {k : Except RunError α → Job}

theorem Job.Offers.lost (ho : j.Offers f id op k) (hj : j.Lost C) (r : Except RunError α) :
    (k r).Lost C := by
  cases ho with
  | fail depth e =>
    rw [Job.Lost]
    trivial
  | done depth v =>
    rw [Job.Lost] at hj
    exact (Work.not_lost_script (fun e he => by cases he) hj).elim
  | _ =>
    rw [Job.Lost] at hj
    exact hj.elim

theorem Job.Offers.error?_of_error (ho : j.Offers f id op k) {e : RunError} {m m' : Machine}
    (hr : Yields (op.run m) (.error e) m') : ((k (.error e)).error?).isSome = true := by
  cases ho with
  | done => cases hr
  | _ => rfl

theorem Job.Offers.fits (ho : j.Offers f id op k) : op.Fits := by
  cases ho <;> exact trivial

/-- A block is finished only by writing its value. -/
theorem Job.Offers.put_of_finished (ho : j.Offers f id op k) {r : Except RunError α} {m m' : Machine}
    (hr : Yields (op.run m) r m') (hk : k r = .finished) :
    ∃ s u, Run.put f.scope id s m = .ok u m' := by
  cases ho with
  | put s =>
    generalize hx : (Op.put f.scope id s).run m = x at hr
    cases hr with
    | ok u => exact ⟨s, u, hx⟩
    | error e => cases hk
  | stuck | done | fail => cases hk
  | argument | call | constant | field | name | copy =>
    cases r <;> cases hk

end Jobs

section Level

variable {C : Graph → Frame → (Nat → Job) → Prop} {g : Graph} {f : Frame} {jobs : Nat → Job}
  {failure failure' : Option RunError} {i : Nat} {x : Job}

/-- One block of a graph goes on. -/
theorem Work.Lost.update (hw : (Work.level g f jobs failure).Lost C)
    (hf : failure.isSome = true → failure'.isSome = true)
    (hc : C g f jobs → (Work.level g f (Function.update jobs i x) failure').Lost C)
    (hj : (jobs i).Lost C → x.Lost C) :
    (Work.level g f (Function.update jobs i x) failure').Lost C := by
  rw [Work.Lost] at hw
  rcases hw with h | h | ⟨l, hl, h⟩
  · rw [Work.Lost]
    exact .inl (hf h)
  · exact hc h
  · rw [Work.Lost]
    refine .inr (.inr ⟨l, hl, ?_⟩)
    by_cases he : l = i
    · subst he
      rw [Function.update_self]
      exact hj h
    · rwa [Function.update_of_ne he]

theorem Work.lost_update (hi : i < g.blocks.length) (hx : x.Lost C) :
    (Work.level g f (Function.update jobs i x) failure).Lost C := by
  rw [Work.Lost]
  exact .inr (.inr ⟨i, hi, by rwa [Function.update_self]⟩)

theorem Work.lost_level (hc : C g f jobs) : (Work.level g f jobs failure).Lost C := by
  rw [Work.Lost]
  exact .inr (.inl hc)

theorem Job.update_ne_finished (hx : x ≠ .finished) (l : Nat) (hl : jobs l ≠ .finished) :
    Function.update jobs i x l ≠ .finished := by
  by_cases he : l = i
  · rw [he, Function.update_self]
    exact hx
  · rwa [Function.update_of_ne he]

end Level

namespace Work.Offers

variable {h : Host} {quiet : Bool} {w : Work} {α : Type} {op : Op α} {k : Except RunError α → Work}
  {r : Except RunError α} {m m' : Machine}

/-- What is lost stays lost where errors are handed on. -/
theorem lost (ho : Work.Offers h quiet w op k) (hs : w.Strict) (hr : Yields (op.run m) r m')
    (hw : w.Hopeless m) : (k r).Hopeless m' := by
  have hgrows := op.growing (fun _ => default) m r m' hr
  have hmono (g : Graph) (f : Frame) (jobs : Nat → Job) (hc : g.Cramped m f jobs) :
      g.Cramped m' f jobs := hc.mono hgrows fun _ => id
  induction ho with
  | print | mute | mint | depth | ask | noLoader | load =>
    exact (Work.not_lost_script (fun e he => by cases he) hw).elim
  | answered =>
    rw [Work.Hopeless, Work.Lost] at hw
    exact (Work.not_lost_script (fun e he => by cases he) hw).elim
  | loaded =>
    rw [Work.Hopeless, Work.Lost] at hw
    exact (Work.not_lost_script (fun e he => by cases he) hw).elim
  | refused quiet depth depth' e next =>
    rw [Work.strict_bind] at hs
    rw [hs.2.1 e]
    exact Work.lost_fail _ _ _
  | empty | abort | cycle | unloaded => exact Work.lost_fail _ _ _
  | inner depth next ho ih =>
    rw [Work.strict_bind] at hs
    rw [Work.Hopeless, Work.Lost] at hw ⊢
    exact ih hs.1 hr hw
  | loading target quiet' ho ih =>
    rw [Work.strict_load] at hs
    rw [Work.Hopeless, Work.Lost] at hw ⊢
    exact ih hs hr hw
  | boot | enter =>
    rw [Work.Hopeless, Work.Lost] at hw
    exact hw.elim
  | @start quiet g f jobs i b hb hwait hfree =>
    refine (hw.mono hmono).update nofun (fun hc => ?_) fun hj => ?_
    · refine Work.lost_level (hc.mono (.refl (fun _ => default) m') fun l hl => ?_)
      exact Job.update_ne_finished (by cases b <;> exact nofun) l hl
    · rw [hwait, Job.Lost] at hj
      exact hj.elim
  | @job quiet g f jobs failure i b _ op k hb ho =>
    have hi : i < g.blocks.length := (List.getElem?_eq_some_iff.mp hb).1
    by_cases hx : k r = .finished
    · obtain ⟨s, u, hput⟩ := ho.put_of_finished hr hx
      rw [Work.Hopeless, Work.Lost] at hw
      rcases hw with hf | hc | ⟨l, hl, hj⟩
      · rw [Work.Hopeless, Work.Lost, Option.isSome_or, hf]
        exact .inl rfl
      · exact Work.lost_level (hc.put hb hput)
      · have hli : l ≠ i := by
          rintro rfl
          have hlost := ho.lost hj r
          rw [hx, Job.Lost] at hlost
          exact hlost
        rw [Work.Hopeless, Work.Lost]
        refine .inr (.inr ⟨l, hl, ?_⟩)
        rw [Function.update_of_ne hli]
        exact hj.mono hmono
    · refine (hw.mono hmono).update (fun hf => ?_) (fun hc => ?_) fun hj => ho.lost hj r
      · rw [Option.isSome_or, hf]
        rfl
      · exact Work.lost_level (hc.mono (.refl (fun _ => default) m') (Job.update_ne_finished hx))
  | @work quiet g f jobs failure i w _ op k hi ho ih =>
    rw [Work.Hopeless, Work.Lost] at hw
    rcases hw with hf | hc | ⟨l, hl, hj⟩
    · rw [Work.Hopeless, Work.Lost]
      exact .inl hf
    · exact Work.lost_level (hc.mono hgrows (Job.update_ne_finished nofun))
    · by_cases hli : l = i
      · subst hli
        rw [hi, Job.Lost] at hj
        rw [Work.strict_level] at hs
        have hsl := hs l
        rw [hi, Job.strict_working] at hsl
        refine Work.lost_update hl ?_
        rw [Job.Lost]
        exact ih hsl hr hj
      · rw [Work.Hopeless, Work.Lost]
        refine .inr (.inr ⟨l, hl, ?_⟩)
        rw [Function.update_of_ne hli]
        exact hj.mono hmono
  | @result quiet g f jobs id hres hfin =>
    have hall {i : Nat} (hi : i < g.blocks.length) := Graph.finished_of_unfinished_eq_nil hfin hi
    rw [Work.Hopeless, Work.Lost] at hw
    rcases hw with hf | ⟨i, b, a, hb, hi, -⟩ | ⟨l, hl, hj⟩
    · cases hf
    · exact (hi (hall (List.getElem?_eq_some_iff.mp hb).1)).elim
    · rw [hall hl, Job.Lost] at hj
      exact hj.elim

/-- When an operation fails, something has failed. -/
theorem failing_of_error {P : Graph → Prop} {sites : Nat → Site} (ho : Work.Offers h quiet w op k)
    (hw : w.Fine P sites m) {e : RunError} (hr : Yields (op.run m) (.error e) m') :
    (k (.error e)).Failing := by
  induction ho with
  | mint | boot | enter | result => exact Work.lost_fail _ _ _
  | empty | abort | cycle | unloaded => exact Work.lost_fail _ _ _
  | print | mute | depth | ask | noLoader | load | answered | refused | loaded | start => cases hr
  | inner depth next ho ih =>
    rw [Work.Fine] at hw
    rw [Work.Failing, Work.Lost]
    exact ih hw.1 hr
  | loading target quiet' ho ih =>
    rw [Work.Fine] at hw
    rw [Work.Failing, Work.Lost]
    exact ih hw hr
  | job quiet failure hb ho =>
    rw [Work.Failing, Work.Lost, Option.isSome_or, ho.error?_of_error hr, Bool.or_true]
    exact .inl rfl
  | @work quiet g f jobs failure i w _ op k hi ho ih =>
    rw [Work.Fine] at hw
    have hlt : i < g.blocks.length := Nat.lt_of_not_le fun hle => by
      cases hi.symm.trans (hw.1.outside hle)
    have hj := hw.2 i
    rw [hi, Job.Fine] at hj
    refine Work.lost_update hlt ?_
    rw [Job.Lost]
    exact ih hj hr

/-- A graph that is entered although its numbers do not fit is hopeless. -/
theorem lost_of_not_fits {P : Graph → Prop} {sites : Nat → Site} (ho : Work.Offers h quiet w op k)
    (hw : w.Fine P sites m) (hf : ¬ op.Fits) (hr : Yields (op.run m) r m') : (k r).Hopeless m' := by
  induction ho with
  | @enter quiet g unit depth parent args _ hres =>
    rw [Work.Fine] at hw
    have hne : g.blocks ≠ [] := by
      intro he
      rw [Graph.result?, he] at hres
      cases hres
    cases r with
    | error e => exact Work.lost_fail _ _ _
    | ok f => exact Work.lost_level (Graph.cramped_of_not_fits hw.built hne hf hw.length hr)
  | inner depth next ho ih =>
    rw [Work.Fine] at hw
    rw [Work.Hopeless, Work.Lost]
    exact ih hw.1 hf hr
  | loading target quiet' ho ih =>
    rw [Work.Fine] at hw
    rw [Work.Hopeless, Work.Lost]
    exact ih hw hf hr
  | job quiet failure hb ho => exact (hf ho.fits).elim
  | @work quiet g f jobs failure i w _ op k hi ho ih =>
    rw [Work.Fine] at hw
    have hlt : i < g.blocks.length := Nat.lt_of_not_le fun hle => by
      cases hi.symm.trans (hw.1.outside hle)
    have hj := hw.2 i
    rw [hi, Job.Fine] at hj
    refine Work.lost_update hlt ?_
    rw [Job.Lost]
    exact ih hj hf hr
  | _ => exact (hf trivial).elim

end Work.Offers

theorem Work.Failing.hopeless {w : Work} (hw : w.Failing) (m : Machine) : w.Hopeless m :=
  Work.Lost.mono (fun _ _ _ => False.elim) hw

/-- What is lost does not come to a value where errors are handed on. -/
theorem Work.Steps.not_done_of_lost {h : Host} {quiet : Bool} {c c' : Work × Machine}
    (hs : Work.Steps h quiet c c') (hh : h.Strict) (hw : c.1.Strict) (hc : c.1.Hopeless c.2)
    (depth : Nat) (v : Value) : c'.1 ≠ .script depth (.done v) := by
  have hlost : c'.1.Hopeless c'.2 := by
    induction hs with
    | refl => exact hc
    | tail hs hstep ih =>
      cases hstep with
      | intro ho hr => exact ho.lost (Work.Steps.strict hs hh hw) hr ih
  intro he
  rw [he] at hlost
  exact Work.not_lost_script (fun e he => by cases he) hlost

end Dataflow
