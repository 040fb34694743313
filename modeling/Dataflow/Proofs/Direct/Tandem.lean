import Dataflow.Proofs.Direct.Evaluate
import Dataflow.Proofs.Direct.Order
import Dataflow.Proofs.Run.Effect
import Dataflow.Proofs.Run.Served

/-!
# Evaluations and runs side by side

The evaluation of a tree goes along with the run of what the tree was compiled to. Both make the same
activations. On the machine, functions may be declared before the evaluation gets to them, and a
function of the evaluation, which is made once, may have several identities.

* `SourceHost.Indifferent`: calls that do the same if functions stand for several;
* `Tandem`: both states, and what stands for what;
* `Tandem.link`: values of the evaluation stand for values of the run;
* `Tandem.Keeps`, `Tandem.Means`: what is kept, and what names stand for;
* `Tandem.Prepared`: a function that has been declared and the graph it was compiled to;
* `Tandem.Serves`, `Tandem.Tied`: the surroundings, and what holds at any time;
* `Tandem.Le`: what is there later on.
-/

namespace Dataflow

open Run

/-! ## Labels -/

mutual

/-- The number of a function, with those of the functions inside it. -/
def Given.labels : Given → List (ValueId × Labels)
  | .value _ _ => []
  | .function id ⟨_, _, _, given, _⟩ => [(id, .of (Given.allLabels given))]

/-- The numbers of functions in order. -/
def Given.allLabels : List Given → List (ValueId × Labels)
  | [] => []
  | g :: gs => Given.labels g ++ Given.allLabels gs

end

/-- The numbers by which texts call the functions of a scope. -/
def Numbering.labels (n : Numbering) : Labels := .of (Given.allLabels n.given)

theorem Given.allLabels_eq (gs : List Given) :
    allLabels gs = (functions gs).map fun f => (f.1, f.2.labels) := by
  induction gs with
  | nil => rw [allLabels, functions, List.map_nil]
  | cons g gs ih =>
    cases g with
    | value id is => rw [allLabels, labels, ih, functions, List.nil_append]
    | function id scope =>
      obtain ⟨first, params, hoisted, given, result⟩ := scope
      rw [allLabels, labels, ih, functions, List.map_cons, Numbering.labels]
      rfl

/-! ## Calls -/

/-- A call that does the same when a function in it stands for several. Of the built-in functions all
do that but `==` and `!=`, and these do it when they do not compare a closure with itself. A function
of the host may do what it likes with other arguments. -/
def SourceHost.Indifferent (h : SourceHost) : Function → List Value → Prop
  | .native n, args => ∀ number, n.body = .host number → ∀ {L : Link} {args' : List Value},
    Value.AllRelated L args args' → Script.Alike L (h.function number args) (h.function number args')
  | .method _ receiver m, args => m.compares = true → receiver.Apart (args.headD .unit)
  | .closure .., _ => True

/-- All of the calls are indifferent. -/
def SourceHost.AllIndifferent (h : SourceHost) (calls : Calls) : Prop :=
  ∀ c ∈ calls, h.Indifferent c.1 c.2

/-! ## Environments -/

/-- Environments with the same names for related values. -/
def Environment.Related (L : Link) (e e' : Environment) : Prop :=
  SymbolsRelated L e.entries e'.entries

theorem SymbolsRelated.of_findIdx? {L : Link} {ss ss' : List (String × Value)}
    (h : SymbolsRelated L ss ss') {name : String} {i : Nat}
    (hi : ss.findIdx? (fun entry => entry.1 == name) = some i) :
    ∃ v s', ss.lookup name = some v ∧ ss'[i]? = some s' ∧ Value.Related L v s'.2 := by
  induction ss generalizing ss' i with
  | nil => cases hi
  | cons s ss ih =>
    cases h with
    | @cons n v v' _ _ hv hs =>
      rw [List.findIdx?_cons] at hi
      rw [List.lookup_cons, BEq.comm]
      cases hn : n == name with
      | true =>
        rw [hn] at hi
        cases hi
        exact ⟨v, _, rfl, rfl, hv⟩
      | false =>
        simp only [hn, Bool.false_eq_true, ↓reduceIte] at hi
        obtain ⟨j, hj, rfl⟩ := Option.map_eq_some_iff.mp hi
        exact ih hs hj

/-- What is found under a name on one side is found under its number on the other. -/
theorem Environment.Related.get? {L : Link} {e e' : Environment} (h : e.Related L e')
    (hs : e.size ≤ 2 ^ 31) {name : String} {id : ValueId} (hid : e.idOf? name = some id) :
    ∃ v v', e.entries.lookup name = some v ∧ id < 0 ∧ e'.get? id = some v' ∧
      Value.Related L v v' := by
  obtain ⟨index, hi, rfl⟩ := Option.map_eq_some_iff.mp hid
  have hlt : index < e.entries.length := (List.findIdx?_eq_some_iff_findIdx_eq.mp hi).1
  have hle : index < 2 ^ 31 := Nat.lt_of_lt_of_le hlt hs
  obtain ⟨v, s', hv, hs', hr⟩ := SymbolsRelated.of_findIdx? h hi
  refine ⟨v, s'.2, hv, Environment.idAt_neg hle, ?_, hr⟩
  rw [Environment.get?, Environment.entry?_idAt hle, hs']
  rfl

/-! ## What stands for what -/

/-- What a unit shares between its functions. -/
def Machine.image (m : Machine) (unit : Nat) : Image := m.images.getD unit default

theorem Machine.holder?_lt {m : Machine} {id : ValueId} {scope holder : Nat}
    (h : m.holder? id scope = some holder) : holder < m.activations.size := by
  induction scope using Nat.strongRecOn with
  | ind scope ih =>
    rw [holder?] at h
    cases ha : m.activations[scope]? with
    | none => simp [ha] at h
    | some a =>
      simp only [ha] at h
      split at h
      case isTrue =>
        cases h
        exact (Array.getElem?_eq_some_iff.mp ha).1
      case isFalse =>
        cases hp : a.parent with
        | none => simp [hp] at h
        | some outer =>
          simp only [hp] at h
          split at h
          case isTrue hlt => exact ih outer hlt h
          case isFalse => cases h

/-- The states of an evaluation and of a run. -/
structure Tandem where
  /-- The identities of methods and libraries that stand for each other. -/
  pairs : Nat → Nat → Prop
  pairs_iff : ∀ {i i' j j'}, pairs i i' → pairs j j' → (i = j ↔ i' = j')
  /-- The identities that a function of the evaluation has on the machine. -/
  copies : Nat → Nat → Prop
  copies_eq : ∀ {i i' j}, copies i i' → copies j i' → i = j
  /-- The levels of the activations. -/
  sites : Nat → Site
  world : World
  machine : Machine

namespace Tandem

variable {t t' : Tandem}

/-- All functions that can be reached from function `j` have been declared in an activation. -/
def Introduced (t : Tandem) (g : Graph) (scope j : Nat) : Prop :=
  ∀ k, g.Reaches j k → (t.world.declared? scope k).isSome = true

/-- A function of the evaluation stands for a closure of the run: it was declared in the same
activation at the position of the closure's block, and all that it can reach has been declared. -/
structure Stands (t : Tandem) (c c' : Closure) : Prop where
  scope : c'.scope = c.scope
  id : c'.id = c.id
  params : c'.graph.params = c.graph.params
  fine : c'.Fine t.sites t.machine
  level : ∃ g outer, (t.sites c.scope).levels = g :: outer ∧
    g.blocks[c.unit]? = some (.function c'.id c'.graph) ∧ t.Introduced g c.scope c.unit

/-- What stands for what. -/
def link (t : Tandem) : Link where
  identity := t.pairs
  function := t.copies
  closure := t.Stands
  identity_iff := t.pairs_iff
  function_eq := t.copies_eq
  closure_id h := h.id.symm
  closure_params h := h.params.symm

/-- A value of the evaluation and what an activation of the machine keeps for it. -/
inductive Keeps (t : Tandem) (scope : Nat) : Value → Slot → Prop where
  | value {v v' : Value} (h : Value.Related t.link v v') : Keeps t scope v (.value v')
  | declared {i : Nat} {c : Closure} {graph : Graph} {unit : Nat} {id : ValueId}
    (hi : i < t.world.identities) (h : t.Stands c ⟨graph, unit, scope, id⟩) :
    Keeps t scope (.function (.closure i c)) (.declared graph unit id)

/-- What a name stands for on one side has a number on the other, as seen from an activation: it is
built in, it is kept by an activation, or it is a function, which need not have been declared yet. -/
inductive Means (t : Tandem) (scope : Nat) : Value → ValueId → Prop where
  | builtin {v v' : Value} {id : ValueId} (hid : id < 0)
    (hv : (t.machine.image (t.sites scope).unit).environment.get? id = some v')
    (h : Value.Related t.link v v') : Means t scope v id
  | kept {holder : Nat} {v : Value} {id : ValueId} {s : Slot} (hid : 0 ≤ id)
    (hh : t.machine.holder? id scope = some holder) (hs : t.machine.slot? holder id = some s)
    (hk : t.Keeps holder v s) : Means t scope v id
  | declared {holder j i : Nat} {g body : Graph} {outer : List Graph} {id : ValueId}
    {params : UInt32} (hid : 0 ≤ id) (hh : t.machine.holder? id scope = some holder)
    (hl : (t.sites holder).levels = g :: outer) (hb : g.blocks[j]? = some (.function id body))
    (hp : params = body.params) (hi : i < t.world.identities) :
    Means t scope (.function (.closure i ⟨⟨0, params, [], []⟩, j, holder, id⟩)) id

/-- What something stands for has a number that was given out before. -/
structure Known (t : Tandem) (scope : Nat) (next : ValueId) (v : Value) (id : ValueId) : Prop where
  means : t.Means scope v id
  lt : id < next

/-- A name that is bound on both sides, seen from an activation. -/
structure Names (t : Tandem) (scope : Nat) (next : ValueId) (b : String × Value)
    (x : String × ValueId) : Prop where
  name : b.1 = x.1
  known : t.Known scope next b.2 x.2

/-- A function that was declared in an activation, or the statements of a program, and the graph that
it was compiled to. -/
structure Prepared (t : Tandem) (d : Declaration) (g : Graph) (unit : Nat) (parent : Option Nat)
    (n : Numbering) (T : Tables) : Prop where
  laid : n.Laid g
  renders : Node.RendersFunction d.environment.idOf? (t.machine.image unit).Holds d.params d.body T n
  labels : d.labels = n.labels
  unit_lt : unit < t.machine.images.size
  few : d.environment.size ≤ 2 ^ 31
  environment : d.environment.Related t.link (t.machine.image unit).environment
  names : List.Forall₂ (fun b x => ∃ p, parent = some p ∧ t.Names p g.first b x) d.names T.names

/-- A program as it is written, and what it was compiled to. -/
structure Compiled (t : Tandem) (s : Source) (p : Program) : Prop where
  laid : ∃ n, n.Laid p.graph ∧ s.labels = n.labels ∧
    Node.RendersFunction s.environment.idOf? p.image.Holds [] s.root ⟨[], [], none⟩ n
  first : p.graph.first = 0
  few : s.environment.size ≤ 2 ^ 31
  environment : s.environment.Related t.link p.environment

/-- What loaders say about a name on both sides. -/
inductive LoadsAlike (t : Tandem) : Sourced → Loaded → Prop where
  | value {v v' : Value} (h : Value.Related t.link v v') : LoadsAlike t (.value v) (.value v')
  | failed (message : String) : LoadsAlike t (.failed message) (.failed message)
  | dropped : LoadsAlike t .dropped .dropped
  | program {s : Source} {p : Program} (h : t.Compiled s p) (quiet : Bool) :
    LoadsAlike t (.source s quiet) (.program p quiet)

/-- The surroundings are the same on both sides. -/
structure Serves (t : Tandem) (h : SourceHost) (h' : Host) : Prop where
  options : h'.options = h.options
  functions : h'.functions = h.functions
  loader : Option.Rel (fun l l' => ∀ target, t.LoadsAlike (l target) (l' target))
    h.loader? h'.loader?

theorem Serves.function_eq {t : Tandem} {h : SourceHost} {h' : Host} (hs : t.Serves h h') :
    h.function = h'.function := by
  funext number args
  rw [SourceHost.function, Host.function, hs.functions, hs.options]

/-- What holds of both sides at any time: all values on the machine are fine; the same has been
printed and loaded; the functions that have been declared were compiled to the graphs that stand at
their positions; and a function was called only when all that it can reach had been declared. -/
structure Tied (t : Tandem) (h : SourceHost) (h' : Host) : Prop where
  fine : t.machine.Fine t.sites
  size : t.world.activations.size = t.machine.activations.size
  pairs_lt : ∀ {i i'}, t.pairs i i' → i < t.world.identities ∧ i' < t.machine.identities
  copies_lt : ∀ {i i'}, t.copies i i' → i < t.world.identities ∧ i' < t.machine.identities
  printed : t.machine.printed = t.world.printed
  loads : t.machine.loads = t.world.loads
  declared : ∀ {scope j d}, t.world.declared? scope j = some d →
    ∃ g outer id body n T, (t.sites scope).levels = g :: outer ∧
      g.blocks[j]? = some (.function id body) ∧
      t.Prepared d body (t.sites scope).unit (some scope) n T
  parent : ∀ {scope : Nat} {a : Activation} {p}, t.machine.activations[scope]? = some a →
    a.parent = some p → ∃ g g' outer j id, (t.sites scope).levels = g :: g' :: outer ∧
      (t.sites p).levels = g' :: outer ∧ g'.blocks[j]? = some (.function id g) ∧
      t.Introduced g' p j
  serves : t.Serves h h'

/-! ## Later on -/

/-- What is there later on: nothing is lost, and the first `k` activations are what they were. -/
structure Le (k : Nat) (t t' : Tandem) : Prop where
  grows : Grows t.sites t.machine t'.sites t'.machine
  pairs : ∀ {i i'}, t.pairs i i' → t'.pairs i i'
  copies : ∀ {i i'}, t.copies i i' → t'.copies i i'
  identities : t.world.identities ≤ t'.world.identities
  declared : ∀ {scope j d}, t.world.declared? scope j = some d → t'.world.declared? scope j = some d
  machine : ∀ i < k, t'.machine.activations[i]? = t.machine.activations[i]?
  world : ∀ i < k, t'.world.activations[i]? = t.world.activations[i]?

namespace Le

variable {k : Nat}

theorem refl (k : Nat) (t : Tandem) : Le k t t :=
  ⟨.refl _ _, id, id, Nat.le_refl _, id, fun _ _ => rfl, fun _ _ => rfl⟩

theorem trans {t'' : Tandem} (h : Le k t t') (h' : Le k t' t'') : Le k t t'' :=
  ⟨h.grows.trans h'.grows, fun hp => h'.pairs (h.pairs hp), fun hp => h'.copies (h.copies hp),
    h.identities.trans h'.identities, fun hd => h'.declared (h.declared hd),
    fun i hi => (h'.machine i hi).trans (h.machine i hi),
    fun i hi => (h'.world i hi).trans (h.world i hi)⟩

theorem mono {l : Nat} (h : Le k t t') (hl : l ≤ k) : Le l t t' :=
  ⟨h.grows, h.pairs, h.copies, h.identities, h.declared,
    fun i hi => h.machine i (Nat.lt_of_lt_of_le hi hl),
    fun i hi => h.world i (Nat.lt_of_lt_of_le hi hl)⟩

variable (h : Le k t t')
include h

theorem introduced {g : Graph} {scope j : Nat} (hi : t.Introduced g scope j) :
    t'.Introduced g scope j := by
  intro l hl
  obtain ⟨d, hd⟩ := Option.isSome_iff_exists.mp (hi l hl)
  rw [h.declared hd]
  rfl

theorem stands {c c' : Closure} (hc : t.Stands c c') : t'.Stands c c' := by
  obtain ⟨g, outer, hl, hb, hi⟩ := hc.level
  refine ⟨hc.scope, hc.id, hc.params, h.grows.closure hc.fine, g, outer, ?_, hb, h.introduced hi⟩
  rw [h.grows.sites (hc.scope ▸ hc.fine.scope), hl]

theorem link : t.link.Le t'.link := ⟨h.pairs, h.copies, h.stands⟩

theorem keeps {scope : Nat} {v : Value} {s : Slot} (hs : t.Keeps scope v s) :
    t'.Keeps scope v s := by
  cases hs with
  | value hv => exact .value (hv.mono h.link)
  | declared hi hc => exact .declared (Nat.lt_of_lt_of_le hi h.identities) (h.stands hc)

theorem image {unit : Nat} (hu : unit < t.machine.images.size) :
    t'.machine.image unit = t.machine.image unit := by
  have hi := Array.getElem?_eq_getElem hu
  rw [Machine.image, Machine.image, Array.getD_eq_getD_getElem?, Array.getD_eq_getD_getElem?,
    h.grows.images hi, hi]

theorem means (hm : t.machine.Fine t.sites) {scope : Nat} (hs : scope < t.machine.activations.size)
    {v : Value} {id : ValueId} (hh : t.Means scope v id) : t'.Means scope v id := by
  have hholder := h.grows.holder? hm.nested id hs
  cases hh with
  | builtin hid hv hr =>
    refine .builtin hid ?_ (hr.mono h.link)
    rw [h.grows.sites hs, h.image (hm.unit hs), hv]
  | kept hid hh hs hk => exact .kept hid (hholder.trans hh) (h.grows.slot? hs) (h.keeps hk)
  | declared hid hh hl hb hp hi =>
    have hl' := (congrArg Site.levels (h.grows.sites (Machine.holder?_lt hh))).trans hl
    exact .declared hid (hholder.trans hh) hl' hb hp (Nat.lt_of_lt_of_le hi h.identities)

theorem known (hm : t.machine.Fine t.sites) {scope : Nat} (hs : scope < t.machine.activations.size)
    {next next' : ValueId} (hn : next ≤ next') {v : Value} {id : ValueId}
    (hx : t.Known scope next v id) : t'.Known scope next' v id :=
  ⟨h.means hm hs hx.means, Int32.lt_of_lt_of_le hx.lt hn⟩

theorem names (hm : t.machine.Fine t.sites) {scope : Nat} (hs : scope < t.machine.activations.size)
    {next next' : ValueId} (hn : next ≤ next') {b : String × Value} {x : String × ValueId}
    (hx : t.Names scope next b x) : t'.Names scope next' b x :=
  ⟨hx.name, h.known hm hs hn hx.known⟩

theorem prepared (hm : t.machine.Fine t.sites) {d : Declaration} {g : Graph} {unit : Nat}
    {parent : Option Nat} {n : Numbering} {T : Tables} (hd : t.Prepared d g unit parent n T)
    (hp : ∀ p, parent = some p → p < t.machine.activations.size) :
    t'.Prepared d g unit parent n T := by
  refine ⟨hd.laid, ?_, hd.labels, Nat.lt_of_lt_of_le hd.unit_lt h.grows.images_size, hd.few, ?_, ?_⟩
  · rw [h.image hd.unit_lt]
    exact hd.renders
  · rw [h.image hd.unit_lt]
    exact SymbolsRelated.mono h.link hd.environment
  · refine hd.names.imp fun _ _ hx => ?_
    obtain ⟨p, hpar, hnames⟩ := hx
    exact ⟨p, hpar, h.names hm (hp p hpar) (Int32.le_refl _) hnames⟩

theorem compiled {s : Source} {p : Program} (hc : t.Compiled s p) : t'.Compiled s p :=
  ⟨hc.laid, hc.first, hc.few, SymbolsRelated.mono h.link hc.environment⟩

theorem serves {host : SourceHost} {host' : Host} (hs : t.Serves host host') :
    t'.Serves host host' := by
  have alike {l : Sourced} {l' : Loaded} (hl : t.LoadsAlike l l') : t'.LoadsAlike l l' := by
    cases hl with
    | value hv => exact .value (hv.mono h.link)
    | failed message => exact .failed message
    | dropped => exact .dropped
    | program hp quiet => exact .program (h.compiled hp) quiet
  refine ⟨hs.options, hs.functions, ?_⟩
  have hl := hs.loader
  generalize host.loader? = l at hl ⊢
  generalize host'.loader? = l' at hl ⊢
  cases hl with
  | none => exact .none
  | some hl => exact .some fun target => alike (hl target)

end Le

end Tandem

end Dataflow
