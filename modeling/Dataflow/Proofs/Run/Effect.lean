import Dataflow.Proofs.Run.Alike
import Dataflow.Proofs.Run.Written

/-!
# What operations add

An operation adds something to a machine: an identity, an image, an activation, a value, a text.
When two operations are done in either order, the machines differ only in the numbers of what was
added.

* `Effect`: what is added;
* `Renaming.between`: the numbers that two additions exchange;
* **`Effect.apply_comm`**: two additions in either order;
* `Op.Adds`: an operation adds something and answers, on every later machine as well.
-/

namespace Dataflow

open Run

/-! ## Numbers that are exchanged -/

/-- Exchanges the `k` numbers from `n` on with the `l` numbers behind them. -/
def rotate (n k l : Nat) : Equiv.Perm Nat where
  toFun x := if x < n then x else if x < n + k then x + l else if x < n + k + l then x - k else x
  invFun x := if x < n then x else if x < n + l then x + k else if x < n + k + l then x - l else x
  left_inv x := by
    dsimp only
    repeat' split
    all_goals omega
  right_inv x := by
    dsimp only
    repeat' split
    all_goals omega

theorem rotate_of_lt {n k l x : Nat} (h : x < n) : rotate n k l x = x := if_pos h

theorem rotate_of_ge {n k l x : Nat} (h : n + k + l ≤ x) : rotate n k l x = x := by
  show (if x < n then x else if x < n + k then x + l else if x < n + k + l then x - k else x) = x
  repeat' split
  all_goals omega

theorem rotate_first {n k l x : Nat} (h : n ≤ x) (h' : x < n + k) : rotate n k l x = x + l := by
  show (if x < n then x else if x < n + k then x + l else if x < n + k + l then x - k else x) = _
  rw [if_neg (by omega), if_pos h']

theorem rotate_second {n k l x : Nat} (h : n + k ≤ x) (h' : x < n + k + l) :
    rotate n k l x = x - k := by
  show (if x < n then x else if x < n + k then x + l else if x < n + k + l then x - k else x) = _
  rw [if_neg (by omega), if_neg (by omega), if_pos h']

/-- What stands in two arrays that were appended in either order. -/
theorem getElem?_rotate {α : Type} (as bs cs : Array α) (x : Nat) :
    (as ++ cs ++ bs)[rotate as.size bs.size cs.size x]? = (as ++ bs ++ cs)[x]? := by
  simp only [Array.getElem?_append, Array.size_append]
  by_cases h : x < as.size
  · rw [rotate_of_lt h]
    simp [h, Nat.lt_add_right _ h]
  · by_cases h' : x < as.size + bs.size
    · rw [rotate_first (Nat.le_of_not_lt h) h']
      rw [if_neg (by omega), if_pos h', if_neg h]
      congr 1
      omega
    · by_cases h'' : x < as.size + bs.size + cs.size
      · rw [rotate_second (Nat.le_of_not_lt h') h'']
        rw [if_pos (by omega), if_neg (by omega), if_neg h']
        congr 1
        omega
      · rw [rotate_of_ge (Nat.le_of_not_lt h'')]
        rw [if_neg (by omega), if_neg h', Array.getElem?_eq_none (by omega),
          Array.getElem?_eq_none (by omega)]

/-! ## What is fixed -/

/-- A renaming that leaves all numbers of a machine alone. -/
structure Renaming.Fixes (ρ : Renaming) (m : Machine) : Prop where
  identity : ∀ i < m.identities, ρ.identity i = i
  scope : ∀ i < m.activations.size, ρ.scope i = i
  unit : ∀ i < m.images.size, ρ.unit i = i

section Fixes

variable {ρ : Renaming} {P : Graph → Prop} {sites : Nat → Site} {m : Machine}

theorem Closure.Fine.fixed (hm : m.Fine sites) (hρ : ρ.Fixes m) {c : Closure}
    (hc : c.Fine sites m) : ρ.closure c = c := by
  have hu := hm.unit hc.scope
  rw [hc.unit] at hu
  rw [Renaming.closure, hρ.unit _ hu, hρ.scope _ hc.scope]

theorem Renaming.Fixes.link (hρ : ρ.Fixes m) (hm : m.Fine sites) :
    (Link.same sites m).Le ρ.link where
  identity := by
    rintro i _ ⟨rfl, hi⟩
    exact (hρ.identity i hi).symm
  function := by
    rintro i _ ⟨rfl, hi⟩
    exact (hρ.identity i hi).symm
  closure := by
    rintro c _ ⟨rfl, hc⟩
    exact (hc.fixed hm hρ).symm

theorem Renaming.Fixes.frame (hρ : ρ.Fixes m) (hm : m.Fine sites) {f : Frame}
    (hf : f.Known sites m) : ρ.frame f = f := by
  have hu := hm.unit hf.1
  rw [hf.2] at hu
  rw [Renaming.frame, hρ.unit _ hu, hρ.scope _ hf.1]

theorem Slot.Fine.renamed (hm : m.Fine sites) (hρ : ρ.Fixes m) {scope : Nat} {s : Slot}
    (hs : s.Fine sites m scope) : s.Renamed ρ s := by
  cases s with
  | value v => exact .value (Value.Related.mono (hρ.link hm) hs)
  | declared graph unit id =>
    have hu := hm.unit hs.scope
    rw [hs.unit] at hu
    have h := Slot.Renamed.declared (ρ := ρ) graph unit id
    rwa [hρ.unit unit hu] at h

/-- Every value of an activation has a position in its level. -/
theorem Activation.Fine.position {a : Activation} {scope : Nat} {g : Graph} {outer : List Graph}
    (ha : a.Fine sites m scope g outer) {id : ValueId} {s : Slot} (hs : a.slot? id = some s) :
    ∃ n < g.slotCount, id = g.slot n := by
  obtain ⟨o, ho, -⟩ := Activation.slot?_eq_some_iff.mp hs
  have hlt := Activation.offset?_lt ho
  rw [ha.size] at hlt
  exact ⟨o, hlt, Activation.offset?_inj ho (ha.fits.offset?_slot ha.first ha.size hlt)⟩

theorem Activation.Fine.renamed (hm : m.Fine sites) (hρ : ρ.Fixes m) {a : Activation} {scope : Nat}
    {g : Graph} {outer : List Graph} (hs : scope < m.activations.size)
    (ha : a.Fine sites m scope g outer) : a.Renamed ρ a := by
  have hparent : a.parent.map ρ.scope = a.parent := by
    cases outer with
    | nil => rw [(ha.root rfl).1]; rfl
    | cons g' outer' =>
      obtain ⟨p, -, -, hp, hlt, -⟩ := ha.parent rfl
      rw [hp, Option.map_some, hρ.scope p (Nat.lt_trans hlt hs)]
  refine ⟨by rw [hparent]; rfl, fun id => ?_⟩
  cases hx : a.slot? id with
  | none => exact .none
  | some s =>
    refine .some ?_
    obtain ⟨n, hn, rfl⟩ := ha.position hx
    by_cases hp : n < g.params.toNat
    · obtain ⟨s', hx', hf⟩ := ha.params n hp
      rw [hx] at hx'
      cases hx'
      exact hf.renamed hm hρ
    · obtain ⟨j, rfl⟩ := Nat.exists_eq_add_of_le (Nat.le_of_not_lt hp)
      have hj : j < g.blocks.length := by
        unfold Level.slotCount at hn
        omega
      rcases Machine.Fine.block_cases ha.built.level hj with ⟨-, i, body, hb⟩ | ⟨-, i, is, hb⟩
      · rw [ha.function hb hx]
        have h := Slot.Renamed.declared (ρ := ρ) body (sites scope).unit i
        rwa [hρ.unit _ (hm.unit hs)] at h
      · exact (ha.value hb hx).renamed hm hρ

theorem Image.renamed_of_fine (hm : m.Fine sites) (hρ : ρ.Fixes m) {i : Image}
    (hi : ∀ id v, i.environment.get? id = some v → v.Fine sites m) : i.Renamed ρ i := by
  refine ⟨rfl, fun id => ?_⟩
  cases hv : i.environment.get? id with
  | none => exact .none
  | some v => exact .some ((hi id v hv).mono (hρ.link hm))

theorem Program.Fine.renamed (hm : m.Fine sites) (hρ : ρ.Fixes m) {p : Program}
    (hp : p.Fine P sites m) : p.image.Renamed ρ p.image :=
  Image.renamed_of_fine hm hρ fun _ _ hv => hp.environment hv

theorem Host.Fine.steady {h : Host} (hh : h.Fine P sites m) (hm : m.Fine sites) (hρ : ρ.Fixes m) :
    h.Steady ρ :=
  ⟨hh.functions, fun hl ht => (hh.value hl ht).mono (hρ.link hm),
    fun hl ht => (hh.program hl ht).renamed hm hρ⟩

theorem LevelFine.renamed (hm : m.Fine sites) (hρ : ρ.Fixes m) {g : Graph} {f : Frame}
    {jobs : Nat → Job} {i : Nat} (hl : LevelFine sites m g f jobs)
    (hn : ∀ w, jobs i ≠ .working w) : (jobs i).Renamed ρ (jobs i) := by
  by_cases hi : i < g.blocks.length
  · have hs := hl.suits (List.getElem?_eq_getElem hi)
    generalize jobs i = j, g.blocks[i] = b at hs hn
    cases j with
    | waiting => exact .waiting
    | finished => exact .finished
    | failed e => exact .failed e
    | working w => exact (hn w rfl).elim
    | reading args rest =>
      cases b with
      | steps => exact .reading rest (Value.allRelated_mono (hρ.link hm) hs.1)
      | function => exact hs.elim
    | selecting v name form =>
      cases b with
      | steps => exact .selecting name form (Value.Related.mono (hρ.link hm) hs)
      | function => exact hs.elim
    | storing s =>
      cases b with
      | steps => exact .storing (Slot.Fine.renamed hm hρ hs)
      | function id body =>
        obtain rfl : s = .declared body f.unit id := hs
        have hu := hm.unit hl.scope
        rw [hl.unit] at hu
        have h := Slot.Renamed.declared (ρ := ρ) body f.unit id
        rw [hρ.unit _ hu] at h
        exact .storing h
  · rw [hl.outside (Nat.le_of_not_lt hi)]
    exact .waiting

mutual

/-- What is under way stays the same when its numbers do. -/
theorem Work.Fine.renamed (hm : m.Fine sites) (hρ : ρ.Fixes m) {w : Work}
    (hw : w.Fine P sites m) : w.Renamed ρ w := by
  cases w with
  | script depth s =>
    rw [Work.Fine] at hw
    exact .script depth (hw (hρ.link hm))
  | bind depth inner next =>
    rw [Work.Fine] at hw
    exact .bind depth (Work.Fine.renamed hm hρ hw.1) fun v v' hv => hw.2 (hρ.link hm) hv
  | boot p =>
    rw [Work.Fine] at hw
    exact .boot rfl (hw.renamed hm hρ)
  | call g unit depth parent args =>
    rw [Work.Fine] at hw
    have h := Work.Renamed.call g unit depth parent
      (Value.allRelated_mono (hρ.link hm) hw.args_fine)
    have hparent : parent.map ρ.scope = parent := by
      cases parent with
      | none => rfl
      | some p => rw [Option.map_some, hρ.scope p (hw.of_some rfl).1]
    rwa [hρ.unit unit hw.unit_lt, hparent] at h
  | level g f jobs failure =>
    rw [Work.Fine] at hw
    have h : Work.Renamed ρ (.level g f jobs failure) (.level g (ρ.frame f) jobs failure) :=
      .level g f failure fun i => Job.Fine.renamed hm hρ (hw.2 i) (hw.1.renamed hm hρ)
    rwa [hρ.frame hm ⟨hw.1.scope, hw.1.unit⟩] at h
  | load target quiet inner =>
    rw [Work.Fine] at hw
    exact .load target quiet (Work.Fine.renamed hm hρ hw)

theorem Job.Fine.renamed (hm : m.Fine sites) (hρ : ρ.Fixes m) {j : Job} (hj : j.Fine P sites m)
    (hplain : (∀ w, j ≠ .working w) → j.Renamed ρ j) : j.Renamed ρ j := by
  cases j with
  | working w =>
    rw [Job.Fine] at hj
    exact .working (Work.Fine.renamed hm hρ hj)
  | _ => exact hplain nofun

end

end Fixes

/-! ## What is added -/

/-- What an operation adds to a machine. -/
structure Effect where
  mints : Nat
  images : Array Image
  activations : Array Activation
  /-- Something that is kept in an activation at an offset. -/
  store? : Option (Nat × Nat × Slot)
  printed : Array String
  loads : Array String

namespace Effect

/-- Nothing at all. -/
def none : Effect := ⟨0, #[], #[], .none, #[], #[]⟩

/-- The activations with what is kept. -/
def stored (e : Effect) (as : Array Activation) : Array Activation :=
  match e.store? with
  | .none => as
  | some (scope, o, s) => as.modify scope (·.put o s)

/-- The machine with what is added. -/
def apply (e : Effect) (m : Machine) : Machine where
  images := m.images ++ e.images
  activations := e.stored m.activations ++ e.activations
  identities := m.identities + e.mints
  printed := m.printed ++ e.printed
  loads := m.loads ++ e.loads

/-- What is added has only numbers of the machine, and is kept where there is a place for it. -/
structure Fine (m : Machine) (e : Effect) : Prop where
  images : ∀ {ρ : Renaming}, ρ.Fixes m → ∀ i ∈ e.images, i.Renamed ρ i
  activations : ∀ {ρ : Renaming}, ρ.Fixes m → ∀ a ∈ e.activations, a.Renamed ρ a
  place : ∀ {scope o s}, e.store? = some (scope, o, s) →
    ∃ a id, m.activations[scope]? = some a ∧ a.offset? id = some o
  slot : ∀ {scope o s}, e.store? = some (scope, o, s) → ∀ {ρ : Renaming}, ρ.Fixes m →
    s.Renamed ρ s

variable {e e₁ e₂ : Effect}

@[simp]
theorem size_stored (e : Effect) (as : Array Activation) : (e.stored as).size = as.size := by
  unfold stored
  split
  · rfl
  · exact Array.size_modify ..

theorem shape_stored (e : Effect) {as : Array Activation} {i : Nat} {a : Activation}
    (h : as[i]? = some a) : ∃ a', (e.stored as)[i]? = some a' ∧ a'.shape = a.shape := by
  unfold stored
  split
  · exact ⟨a, h, rfl⟩
  · rw [Array.getElem?_modify]
    split
    · rw [h]
      exact ⟨_, rfl, Activation.shape_put ..⟩
    · exact ⟨a, h, rfl⟩

theorem stored_append {as : Array Activation}
    (h : ∀ {scope o s}, e.store? = some (scope, o, s) → scope < as.size) (bs : Array Activation) :
    e.stored (as ++ bs) = e.stored as ++ bs := by
  unfold stored
  split
  · rfl
  · rename_i scope o s hs
    have hlt := h hs
    refine Array.ext_getElem? fun i => ?_
    rw [Array.getElem?_modify, Array.getElem?_append, Array.getElem?_append, Array.size_modify,
      Array.getElem?_modify]
    by_cases hi : scope = i
    · subst hi
      rw [if_pos rfl, if_pos hlt, if_pos hlt, if_pos rfl]
    · rw [if_neg hi, if_neg hi]

theorem put_comm (a : Activation) {o o' : Nat} (h : o ≠ o') (s s' : Slot) :
    (a.put o s).put o' s' = (a.put o' s').put o s := by
  unfold Activation.put
  congr 1
  refine Array.ext_getElem? fun i => ?_
  simp only [Array.getElem?_modify]
  by_cases hi : o = i
  · subst hi
    simp [Ne.symm h]
  · by_cases hi' : o' = i
    · subst hi'
      simp [h]
    · simp [hi, hi']

/-- What is kept at different places can be kept in either order. -/
theorem stored_comm (h : ∀ {scope o s scope' o' s'}, e₁.store? = some (scope, o, s) →
      e₂.store? = some (scope', o', s') → ¬ (scope = scope' ∧ o = o')) (as : Array Activation) :
    e₂.stored (e₁.stored as) = e₁.stored (e₂.stored as) := by
  unfold stored
  split
  · rfl
  · rename_i scope' o' s' h₂
    split
    · rfl
    · rename_i scope o s h₁
      have hne := h h₁ h₂
      refine Array.ext_getElem? fun i => ?_
      simp only [Array.getElem?_modify]
      by_cases hi : scope = i
      · subst hi
        by_cases hi' : scope' = scope
        · subst hi'
          have ho : o ≠ o' := fun ho => hne ⟨rfl, ho⟩
          cases as[scope']? with
          | none => simp
          | some a => simp [put_comm a ho s s']
        · simp [hi']
      · simp [hi]

theorem renamed_stored {ρ : Renaming} {as : Array Activation}
    (h : ∀ (i : Nat) (a : Activation), as[i]? = some a → a.Renamed ρ a)
    (hplace : ∀ {scope o s}, e.store? = some (scope, o, s) →
      ∃ (a : Activation) (id : ValueId), as[scope]? = some a ∧ a.offset? id = some o)
    (hslot : ∀ {scope o s}, e.store? = some (scope, o, s) → s.Renamed ρ s) (i : Nat)
    (a : Activation) (ha : (e.stored as)[i]? = some a) : a.Renamed ρ a := by
  unfold stored at ha
  split at ha
  · exact h i a ha
  · rename_i scope o s hs
    rw [Array.getElem?_modify] at ha
    split at ha
    case isFalse => exact h i a ha
    case isTrue he =>
      subst he
      obtain ⟨a₀, id, ha₀, ho⟩ := hplace hs
      rw [ha₀, Option.map_some, Option.some.injEq] at ha
      subst ha
      exact (h _ _ ha₀).put ho (hslot hs)

end Effect

/-- The numbers that two additions to a machine exchange. -/
def Renaming.between (m : Machine) (e₁ e₂ : Effect) : Renaming where
  identity := rotate m.identities e₁.mints e₂.mints
  scope := rotate m.activations.size e₁.activations.size e₂.activations.size
  unit := rotate m.images.size e₁.images.size e₂.images.size

theorem Renaming.fixes_between (m : Machine) (e₁ e₂ : Effect) :
    (Renaming.between m e₁ e₂).Fixes m :=
  ⟨fun _ h => rotate_of_lt h, fun _ h => rotate_of_lt h, fun _ h => rotate_of_lt h⟩

theorem Option.rel_self {α : Type} {R : α → α → Prop} {x : Option α} (h : ∀ a, x = some a → R a a) :
    Option.Rel R x x := by
  cases x with
  | none => exact .none
  | some a => exact .some (h a rfl)

/-- Two additions in either order differ only in the numbers that they exchange. -/
theorem Effect.apply_comm {sites : Nat → Site} {m : Machine} (hm : m.Fine sites) {e₁ e₂ : Effect}
    (h₁ : e₁.Fine m) (h₂ : e₂.Fine m)
    (hd : ∀ {scope o s scope' o' s'}, e₁.store? = some (scope, o, s) →
      e₂.store? = some (scope', o', s') → ¬ (scope = scope' ∧ o = o')) :
    (e₂.apply (e₁.apply m)).Renamed (.between m e₁ e₂) (e₁.apply (e₂.apply m)) := by
  have hρ := Renaming.fixes_between m e₁ e₂
  have hlt {e : Effect} (h : e.Fine m) {scope o : Nat} {s : Slot}
      (hs : e.store? = some (scope, o, s)) : scope < m.activations.size := by
    obtain ⟨a, -, ha, -⟩ := h.place hs
    exact (Array.getElem?_eq_some_iff.mp ha).1
  have happend {e e' : Effect} (h : e.Fine m) :
      (e.apply (e'.apply m)).activations =
        e.stored (e'.stored m.activations) ++ e'.activations ++ e.activations := by
    show e.stored (e'.stored m.activations ++ e'.activations) ++ e.activations = _
    rw [Effect.stored_append]
    intro scope o s hs
    rw [Effect.size_stored]
    exact hlt h hs
  have himages (e e' : Effect) :
      (e.apply (e'.apply m)).images = m.images ++ e'.images ++ e.images := rfl
  refine ⟨?_, ?_, fun unit => ?_, ?_, fun scope => ?_, ?_, ?_, fun i hi => ?_, fun i hi => ?_,
    fun i hi => ?_⟩
  · exact Nat.add_right_comm ..
  · simp only [himages, Array.size_append]
    omega
  · rw [himages, himages, Renaming.between, getElem?_rotate]
    refine Option.rel_self fun i hi => ?_
    have hmem := Array.mem_of_getElem? hi
    rw [Array.mem_append, Array.mem_append] at hmem
    rcases hmem with (hmem | hmem) | hmem
    · obtain ⟨u, hu⟩ := Array.mem_iff_getElem?.mp hmem
      exact Image.renamed_of_fine hm hρ fun id v hv => hm.image hu hv
    · exact h₁.images hρ i hmem
    · exact h₂.images hρ i hmem
  · rw [happend h₁, happend h₂]
    simp only [Array.size_append, Effect.size_stored]
    omega
  · rw [happend h₁, happend h₂, ← Effect.stored_comm hd]
    have hsize : (e₂.stored (e₁.stored m.activations)).size = m.activations.size := by
      rw [Effect.size_stored, Effect.size_stored]
    have hget := getElem?_rotate (e₂.stored (e₁.stored m.activations)) e₁.activations
      e₂.activations scope
    rw [hsize] at hget
    show Option.Rel _ _
      (_ : Array Activation)[rotate m.activations.size e₁.activations.size e₂.activations.size scope]?
    rw [hget]
    refine Option.rel_self fun a ha => ?_
    have hmem := Array.mem_of_getElem? ha
    rw [Array.mem_append, Array.mem_append] at hmem
    rcases hmem with (hmem | hmem) | hmem
    · obtain ⟨i, hi⟩ := Array.mem_iff_getElem?.mp hmem
      have hbase (i : Nat) (a : Activation) (ha : m.activations[i]? = some a) :
          a.Renamed (.between m e₁ e₂) a := by
        obtain ⟨g, outer, haf⟩ := hm.activation ha
        exact haf.renamed hm hρ (Array.getElem?_eq_some_iff.mp ha).1
      have hfirst := Effect.renamed_stored hbase h₁.place fun hs => h₁.slot hs hρ
      refine Effect.renamed_stored hfirst (fun hs => ?_) (fun hs => h₂.slot hs hρ) i a hi
      obtain ⟨a', id, ha', ho⟩ := h₂.place hs
      obtain ⟨a'', ha'', hshape⟩ := e₁.shape_stored ha'
      exact ⟨a'', id, ha'', by rw [Activation.offset?_congr hshape, ho]⟩
    · exact h₁.activations hρ a hmem
    · exact h₂.activations hρ a hmem
  · show (m.printed ++ e₁.printed ++ e₂.printed).toList.Perm
      (m.printed ++ e₂.printed ++ e₁.printed).toList
    simp only [Array.toList_append, List.append_assoc]
    exact List.perm_append_comm.append_left _
  · show (m.loads ++ e₁.loads ++ e₂.loads).toList.Perm (m.loads ++ e₂.loads ++ e₁.loads).toList
    simp only [Array.toList_append, List.append_assoc]
    exact List.perm_append_comm.append_left _
  · exact rotate_of_ge hi
  · refine rotate_of_ge ?_
    rw [happend h₂, Array.size_append, Array.size_append, Effect.size_stored,
      Effect.size_stored] at hi
    exact hi
  · refine rotate_of_ge ?_
    rw [himages, Array.size_append, Array.size_append] at hi
    exact hi

/-! ## What operations add and answer -/

/-- An operation adds something and answers, now and on every later machine on which it may be done;
the answer is the same but for the numbers that are given out. -/
structure Op.Adds (P : Graph → Prop) (sites : Nat → Site) (m : Machine) {α : Type} (op : Op α)
    (e : Effect) (reply : Machine → α) : Prop where
  fine : e.Fine m
  later : ∀ {sites' m'}, Grows sites m sites' m' → op.Safe P sites' m' →
    op.run m' = .ok (reply m') (e.apply m')
  alike : ∀ {ρ : Renaming} {m₁ m₂ : Machine}, ρ.Fixes m →
    (0 < e.mints → ρ.identity m₁.identities = m₂.identities) →
    (0 < e.images.size → ρ.unit m₁.images.size = m₂.images.size) →
    (0 < e.activations.size → ρ.scope m₁.activations.size = m₂.activations.size) →
    op.Alike ρ (reply m₁) (reply m₂)
  free : ∀ {sites' m' scope o s a id}, e.store? = some (scope, o, s) → Grows sites m sites' m' →
    op.Safe P sites' m' → m'.activations[scope]? = some a → a.offset? id = some o →
    a.slot? id = none

namespace Effect

theorem fine_of_store?_eq_none {m : Machine} {e : Effect}
    (hi : ∀ {ρ : Renaming}, ρ.Fixes m → ∀ i ∈ e.images, i.Renamed ρ i)
    (ha : ∀ {ρ : Renaming}, ρ.Fixes m → ∀ a ∈ e.activations, a.Renamed ρ a)
    (hs : e.store? = Option.none) : e.Fine m := by
  refine ⟨hi, ha, fun h => ?_, fun h => ?_⟩
  · rw [hs] at h
    cases h
  · rw [hs] at h
    cases h

/-- So many identities are given out. -/
def minted (n : Nat) : Effect := { none with mints := n }

theorem fine_minted (m : Machine) (n : Nat) : (minted n).Fine m :=
  fine_of_store?_eq_none (fun _ i hi => by simp [minted, none] at hi)
    (fun _ a ha => by simp [minted, none] at ha) rfl

theorem apply_minted (m : Machine) (n : Nat) : (minted n).apply m = m.minted n := by
  simp [apply, minted, none, stored, Machine.minted]

end Effect

namespace Slot

/-- How many identities are given out when something is read. -/
def mints : Slot → Nat
  | value _ => 0
  | declared .. => 1

/-- What is read. -/
def reply (scope : Nat) : Slot → Machine → Value
  | value v, _ => v
  | declared graph unit id, m => .function (.closure m.identities ⟨graph, unit, scope, id⟩)

theorem read_eq {m : Machine} {scope : Nat} {id : ValueId} {s : Slot}
    (h : m.slot? scope id = some s) :
    Run.read scope id m = .ok (some (s.reply scope m)) (m.minted s.mints) := by
  rw [read_apply, h]
  cases s <;> rfl

theorem reply_alike {sites : Nat → Site} {m : Machine} (hm : m.Fine sites) {scope : Nat} {s : Slot}
    (hs : s.Fine sites m scope) {ρ : Renaming} (hρ : ρ.Fixes m) {m₁ m₂ : Machine}
    (hi : 0 < s.mints → ρ.identity m₁.identities = m₂.identities) :
    Value.Related ρ.link (s.reply scope m₁) (s.reply scope m₂) := by
  cases s with
  | value v => exact Value.Related.mono (hρ.link hm) hs
  | declared graph unit id =>
    exact .function (.closure (hi Nat.one_pos).symm (Closure.Fine.fixed hm hρ hs).symm)

end Slot

theorem Grows.holder? {sites sites' : Nat → Site} {m m' : Machine} (h : Grows sites m sites' m')
    (hn : m.Nested) (id : ValueId) {scope : Nat} (hs : scope < m.activations.size) :
    m'.holder? id scope = m.holder? id scope := by
  induction scope using Nat.strongRecOn with
  | ind scope ih =>
    obtain ⟨a', ha', hshape, -⟩ := h.activations (Array.getElem?_eq_getElem hs)
    obtain ⟨hparent, hfirst, -⟩ := Activation.shape_eq hshape
    rw [Machine.holder?, Machine.holder?, ha', Array.getElem?_eq_getElem hs]
    dsimp only
    rw [hfirst, hparent]
    split
    · rfl
    · split
      · rfl
      · rename_i outer hp
        have hlt := hn (Array.getElem?_eq_getElem hs) hp
        rw [dif_pos hlt, dif_pos hlt, ih outer hlt (Nat.lt_trans hlt hs)]

end Dataflow
