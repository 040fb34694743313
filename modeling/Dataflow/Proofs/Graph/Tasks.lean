import Dataflow.Proofs.Graph.Topological

/-!
# Visits by tasks of their own

Every node that is ready gets a task, and tasks take their steps in any order. A task looks whether a
visit has failed, visits its node, marks it, and counts down those that wait for it, one by one; the
task that takes a count to zero spawns the task of that node. A visit that fails raises a flag, after
which tasks that have not begun give up.

* `Peel.Stage`, `Peel.Pool`: how far tasks have come, and what they share;
* `Peel.Pool.Step`: a step of one of the tasks;
* `Peel.Pool.Sound`: what holds at any time, kept by every step in `Peel.Pool.Sound.step`;
* **`Peel.Pool.every_interleaving_safe`**: what holds however the steps of the tasks interleave.
-/

namespace Dataflow.Peel

open Relation

/-- How far a task has come. -/
inductive Stage (ε : Type) where
  | spawned
  /-- It has seen that a visit has failed, and gave up. -/
  | refused
  | admitted
  | visiting
  | passed
  /-- The nodes of `todo` still have to be counted down. -/
  | releasing (todo : List Nat)
  | broken (e : ε)
  /-- The flag is up. -/
  | flagged (e : ε)
  /-- The error has been handed in. -/
  | noted (e : ε)

/-- What happens to a node. -/
inductive Event (ε : Type) where
  | entered (i : Nat)
  | passed (i : Nat)
  | failed (i : Nat) (e : ε)

/-- The node an event is about. -/
def Event.node {ε : Type} : Event ε → Nat
  | entered i | passed i | failed i _ => i

/-- A task and its node. -/
structure Task (ε : Type) where
  node : Nat
  stage : Stage ε

/-- All tasks that were spawned, what they share, and what has happened. -/
structure Pool (ε : Type) where
  tasks : List (Task ε)
  counts : Array Nat
  processed : Array Bool
  failed : Bool
  failure : Option ε
  events : List (Event ε)

namespace Pool

variable {ε : Type}

/-- The tasks of the nodes that wait for nothing. -/
def start (n : Nat) (rows : List (List Nat)) : Pool ε where
  tasks := ((List.range n).filter fun i => (degrees n rows).getD i 0 = 0).map (⟨·, .spawned⟩)
  counts := degrees n rows
  processed := Array.replicate n false
  failed := false
  failure := none
  events := []

/-- The nodes of the tasks, in the order in which these were spawned. -/
def nodes (p : Pool ε) : List Nat := p.tasks.map Task.node

/-- Task number `k` comes to a stage. -/
def move (p : Pool ε) (k i : Nat) (stage : Stage ε) : Pool ε :=
  { p with tasks := p.tasks.set k ⟨i, stage⟩ }

/-- A visit has failed. -/
def raise (p : Pool ε) : Pool ε := { p with failed := true }

/-- An error is handed in; the first one stays. -/
def hand (p : Pool ε) (e : ε) : Pool ε := { p with failure := some (p.failure.getD e) }

/-- A node has been visited. -/
def mark (p : Pool ε) (i : Nat) : Pool ε := { p with processed := p.processed.setIfInBounds i true }

/-- Something happens. -/
def note (p : Pool ε) (e : Event ε) : Pool ε := { p with events := p.events ++ [e] }

/-- The node `x` waits for one less; when it was the last one, its task is spawned. -/
def release (p : Pool ε) (x : Nat) : Pool ε :=
  let count := p.counts.getD x 0
  { p with
    counts := p.counts.setIfInBounds x (count - 1)
    tasks := if count = 1 then p.tasks ++ [⟨x, .spawned⟩] else p.tasks }

/-- What is returned when all tasks are over. -/
def result (p : Pool ε) : Except ε (Array Bool) :=
  match p.failure with
  | some e => .error e
  | none => .ok p.processed

/-- A step of task number `k`, which is that of node `i`. -/
inductive Step (n : Nat) (rows : List (List Nat)) : Pool ε → Pool ε → Prop where
  | refuse {p : Pool ε} {k i : Nat} (ht : p.tasks[k]? = some ⟨i, .spawned⟩) (hf : p.failed = true) :
    Step n rows p (p.move k i .refused)
  | accept {p : Pool ε} {k i : Nat} (ht : p.tasks[k]? = some ⟨i, .spawned⟩) (hf : p.failed = false) :
    Step n rows p (p.move k i .admitted)
  | enter {p : Pool ε} {k i : Nat} (ht : p.tasks[k]? = some ⟨i, .admitted⟩) :
    Step n rows p ((p.move k i .visiting).note (.entered i))
  | pass {p : Pool ε} {k i : Nat} (ht : p.tasks[k]? = some ⟨i, .visiting⟩) :
    Step n rows p ((p.move k i .passed).note (.passed i))
  | fail {p : Pool ε} {k i : Nat} (e : ε) (ht : p.tasks[k]? = some ⟨i, .visiting⟩) :
    Step n rows p ((p.move k i (.broken e)).note (.failed i e))
  | flag {p : Pool ε} {k i : Nat} {e : ε} (ht : p.tasks[k]? = some ⟨i, .broken e⟩) :
    Step n rows p (p.move k i (.flagged e)).raise
  | hand {p : Pool ε} {k i : Nat} {e : ε} (ht : p.tasks[k]? = some ⟨i, .flagged e⟩) :
    Step n rows p ((p.move k i (.noted e)).hand e)
  | mark {p : Pool ε} {k i : Nat} (ht : p.tasks[k]? = some ⟨i, .passed⟩) :
    Step n rows p ((p.move k i (.releasing (rows.getD i []))).mark i)
  | skip {p : Pool ε} {k i x : Nat} {todo : List Nat}
    (ht : p.tasks[k]? = some ⟨i, .releasing (x :: todo)⟩) (hx : n ≤ x) :
    Step n rows p (p.move k i (.releasing todo))
  | release {p : Pool ε} {k i x : Nat} {todo : List Nat}
    (ht : p.tasks[k]? = some ⟨i, .releasing (x :: todo)⟩) (hx : x < n) :
    Step n rows p ((p.move k i (.releasing todo)).release x)

/-- No task can take a step. -/
def Quiescent (n : Nat) (rows : List (List Nat)) (p : Pool ε) : Prop := ∀ q, ¬ Step n rows p q

end Pool

/-! ## What holds at any time -/

namespace Stage

variable {ε : Type}

/-- What has happened to the node of a task. -/
def history (i : Nat) : Stage ε → List (Event ε)
  | spawned | refused | admitted => []
  | visiting => [.entered i]
  | passed | releasing _ => [.entered i, .passed i]
  | broken e | flagged e | noted e => [.entered i, .failed i e]

/-- How often the task of a node still has to count down another one, if its visit succeeds. -/
def owes (row : List Nat) (x : Nat) : Stage ε → Nat
  | releasing todo => todo.count x
  | spawned | refused | admitted | visiting | passed | broken _ | flagged _ | noted _ => row.count x

end Stage

namespace Pool

variable {ε : Type} {n : Nat} {rows : List (List Nat)} {p q : Pool ε}

/-- The stage of the task of a node, if it has one. -/
def stageOf (p : Pool ε) (i : Nat) : Option (Stage ε) :=
  (p.tasks.find? fun t => t.node = i).map Task.stage

/-- How often the tasks still have to count down a node. -/
def owes (rows : List (List Nat)) (p : Pool ε) (x : Nat) : Nat :=
  (p.tasks.map fun t => t.stage.owes (rows.getD t.node []) x).sum

/-- What has happened to a node. -/
def eventsOf (p : Pool ε) (i : Nat) : List (Event ε) := p.events.filter fun e => e.node = i

theorem exists_split {tasks : List (Task ε)} {k : Nat} {t : Task ε} (h : tasks[k]? = some t)
    (t' : Task ε) : ∃ l r, tasks = l ++ t :: r ∧ tasks.set k t' = l ++ t' :: r := by
  obtain ⟨hk, rfl⟩ := List.getElem?_eq_some_iff.mp h
  refine ⟨tasks.take k, tasks.drop (k + 1), ?_, ?_⟩
  · rw [← List.drop_eq_getElem_cons, List.take_append_drop]
  · rw [List.set_eq_take_append_cons_drop, if_pos hk]

theorem exists_task {i : Nat} {stage : Stage ε} (h : p.stageOf i = some stage) :
    ∃ k : Nat, p.tasks[k]? = some ⟨i, stage⟩ := by
  obtain ⟨t, ht, rfl⟩ := Option.map_eq_some_iff.mp h
  have hi : t.node = i := by simpa using List.find?_some ht
  obtain ⟨k, hk⟩ := List.mem_iff_getElem?.mp (List.mem_of_find?_eq_some ht)
  exact ⟨k, by rw [hk, ← hi]⟩

theorem mem_nodes_iff {i : Nat} : i ∈ p.nodes ↔ ∃ stage, p.stageOf i = some stage := by
  constructor
  · intro h
    obtain ⟨t, ht, rfl⟩ := List.mem_map.mp h
    obtain ⟨t', ht'⟩ : ∃ t', p.tasks.find? (fun u => u.node = t.node) = some t' :=
      Option.isSome_iff_exists.mp (List.find?_isSome.mpr ⟨t, ht, by simp⟩)
    exact ⟨t'.stage, by rw [stageOf, ht']; rfl⟩
  · rintro ⟨stage, h⟩
    obtain ⟨k, hk⟩ := exists_task h
    exact List.mem_map.mpr ⟨_, List.mem_of_getElem? hk, rfl⟩

theorem stageOf_eq_none {i : Nat} (h : i ∉ p.nodes) : p.stageOf i = none := by
  rw [mem_nodes_iff, not_exists] at h
  exact Option.eq_none_iff_forall_ne_some.mpr h

/-- The tasks of a pool after one of them has come to another stage. -/
structure Moved (p q : Pool ε) (i : Nat) (stage stage' : Stage ε) : Prop where
  nodes_eq : q.nodes = p.nodes
  stageOf_eq : ∀ j, q.stageOf j = if j = i then some stage' else p.stageOf j
  before : p.stageOf i = some stage
  owes_eq : ∀ rows x, q.owes rows x + stage.owes (rows.getD i []) x =
    p.owes rows x + stage'.owes (rows.getD i []) x

theorem moved (hn : p.nodes.Nodup) {k i : Nat} {stage stage' : Stage ε}
    (ht : p.tasks[k]? = some ⟨i, stage⟩) (h' : q.tasks = p.tasks.set k ⟨i, stage'⟩) :
    Moved p q i stage stage' := by
  obtain ⟨l, r, hl, hset⟩ := exists_split ht ⟨i, stage'⟩
  rw [hset] at h'
  have hil : i ∉ l.map Task.node := by
    rw [nodes, hl, List.map_append, List.map_cons] at hn
    exact fun hm => List.disjoint_of_nodup_append hn hm List.mem_cons_self
  have hfind : l.find? (fun t => t.node = i) = none := by
    refine List.find?_eq_none.mpr fun t htl => ?_
    simp only [decide_eq_true_eq]
    rintro rfl
    exact hil (List.mem_map_of_mem htl)
  refine ⟨?_, fun j => ?_, ?_, fun rows x => ?_⟩
  · simp only [nodes, h', hl, List.map_append, List.map_cons]
  · by_cases hj : j = i
    · subst hj
      simp [stageOf, h', List.find?_append, hfind]
    · simp [stageOf, h', hl, List.find?_append, Ne.symm hj, hj]
  · simp [stageOf, hl, List.find?_append, hfind]
  · simp only [owes, h', hl, List.map_append, List.map_cons, List.sum_append, List.sum_cons]
    omega

theorem stageOf_of_mem (hn : p.nodes.Nodup) {t : Task ε} (ht : t ∈ p.tasks) :
    p.stageOf t.node = some t.stage := by
  obtain ⟨k, hk⟩ := List.mem_iff_getElem?.mp ht
  exact (moved hn hk (q := p.move k t.node t.stage) rfl).before

theorem nodes_release (p : Pool ε) (x : Nat) :
    (p.release x).nodes = if p.counts.getD x 0 = 1 then p.nodes ++ [x] else p.nodes := by
  rw [nodes, release]
  dsimp only
  split <;> simp [nodes]

theorem owes_release (p : Pool ε) (x y : Nat) : (p.release x).owes rows y =
    if p.counts.getD x 0 = 1 then p.owes rows y + (rows.getD x []).count y else p.owes rows y := by
  rw [owes, release]
  dsimp only
  split <;> simp [owes, Stage.owes]

theorem counts_release (p : Pool ε) {x : Nat} (hx : x < p.counts.size) (y : Nat) :
    (p.release x).counts.getD y 0 =
      if y = x then p.counts.getD x 0 - 1 else p.counts.getD y 0 := by
  show (p.counts.setIfInBounds x _).getD y 0 = _
  simp only [getD_setIfInBounds, hx, and_true]

theorem stageOf_release {x : Nat} (hx : p.counts.getD x 0 = 1 → x ∉ p.nodes) (j : Nat) :
    (p.release x).stageOf j =
      if p.counts.getD x 0 = 1 ∧ j = x then some .spawned else p.stageOf j := by
  rw [stageOf, release]
  dsimp only
  by_cases h1 : p.counts.getD x 0 = 1
  · have hnone := stageOf_eq_none (hx h1)
    rw [stageOf, Option.map_eq_none_iff] at hnone
    rw [if_pos h1, List.find?_append]
    by_cases hj : j = x
    · subst hj
      simp only [hnone, h1, and_self, ↓reduceIte]
      simp
    · simp [stageOf, hj, Ne.symm hj]
  · rw [if_neg h1, if_neg fun h => h1 h.1]
    rfl

/-! ### Counts -/

/-- What holds of the tasks and the counts at any time. -/
structure Sound (n : Nat) (rows : List (List Nat)) (p : Pool ε) : Prop where
  size : p.counts.size = n
  nodup : p.nodes.Nodup
  lt : ∀ i ∈ p.nodes, i < n
  /-- Exactly the nodes that wait for nothing any more have tasks. -/
  mem_iff : ∀ x < n, x ∈ p.nodes ↔ p.counts.getD x 0 = 0
  /-- What is not counted down yet is what some task owes, or a node without a task. -/
  balance : ∀ x < n, p.counts.getD x 0 + settled rows p.nodes x = rows.flatten.count x + p.owes rows x

namespace Sound

theorem start (n : Nat) (rows : List (List Nat)) : (start n rows : Pool ε).Sound n rows := by
  have h := counts_degrees n rows
  have hnodes : (Pool.start n rows : Pool ε).nodes =
      (List.range n).filter fun i => (degrees n rows).getD i 0 = 0 := by
    simp [nodes, Pool.start, Function.comp_def]
  refine ⟨h.size, ?_, fun i hi => ?_, fun x hx => ?_, fun x hx => ?_⟩
  · rw [hnodes]
    exact h.ready_nodup
  · rw [hnodes] at hi
    exact ((h.mem_ready i).mp hi).1
  · rw [hnodes, h.mem_ready]
    simp [hx, Pool.start]
  · have howed : (degrees n rows).getD x 0 = rows.flatten.count x := h.owed x hx
    have howes : (Pool.start n rows : Pool ε).owes rows x =
        settled rows (Pool.start n rows : Pool ε).nodes x := by
      simp [owes, settled, nodes, Pool.start, Function.comp_def, Stage.owes]
    rw [howes]
    exact congrArg (· + _) howed

theorem settled_le (h : p.Sound n rows) (x : Nat) :
    settled rows p.nodes x ≤ rows.flatten.count x := by
  rw [count_flatten_eq_add (Nat.le_max_right n rows.length) h.nodup
    fun j hj => Nat.lt_of_lt_of_le (h.lt j hj) (Nat.le_max_left _ _)]
  exact Nat.le_add_right _ _

/-- A task comes to another stage without counting anything down. -/
theorem moved (h : p.Sound n rows) {i : Nat} {stage stage' : Stage ε}
    (hm : Moved p q i stage stage') (hc : q.counts = p.counts)
    (ho : ∀ x < n, stage'.owes (rows.getD i []) x = stage.owes (rows.getD i []) x) :
    q.Sound n rows := by
  refine ⟨by rw [hc, h.size], by rw [hm.nodes_eq]; exact h.nodup, by rw [hm.nodes_eq]; exact h.lt,
    by rw [hm.nodes_eq, hc]; exact h.mem_iff, fun x hx => ?_⟩
  have hb := h.balance x hx
  have hw := hm.owes_eq rows x
  rw [hm.nodes_eq, hc]
  rw [ho x hx] at hw
  omega

section Release

variable {i x : Nat} {todo : List Nat}

/-- A node that is counted down had to wait. -/
theorem pos_of_owes (h : p.Sound n rows)
    (hm : Moved p q i (.releasing (x :: todo)) (.releasing todo)) (hx : x < n) :
    0 < p.counts.getD x 0 := by
  have hb := h.balance x hx
  have hw := hm.owes_eq rows x
  have hle := h.settled_le x
  simp only [Stage.owes, List.count_cons_self] at hw
  omega

theorem not_mem_of_owes (h : p.Sound n rows)
    (hm : Moved p q i (.releasing (x :: todo)) (.releasing todo)) (hx : x < n) : x ∉ p.nodes := by
  have hpos := h.pos_of_owes hm hx
  rw [h.mem_iff x hx]
  omega

/-- A task counts down one of the nodes that wait for its own. -/
theorem release (h : p.Sound n rows)
    (hm : Moved p q i (.releasing (x :: todo)) (.releasing todo)) (hc : q.counts = p.counts)
    (hx : x < n) : (q.release x).Sound n rows := by
  have hpos := h.pos_of_owes hm hx
  have hnot := h.not_mem_of_owes hm hx
  have hsize : x < q.counts.size := by rw [hc, h.size]; exact hx
  have hcount := counts_release q hsize
  have hw (y : Nat) : p.owes rows y = q.owes rows y + if y = x then 1 else 0 := by
    have hw := hm.owes_eq rows y
    simp only [Stage.owes, List.count_cons, beq_iff_eq, eq_comm (a := x)] at hw
    omega
  rw [hc] at hcount
  refine ⟨?_, ?_, ?_, fun y hy => ?_, fun y hy => ?_⟩
  · rw [← h.size, ← hc]
    exact Array.size_setIfInBounds
  · rw [nodes_release, hc, hm.nodes_eq]
    split
    · exact List.nodup_append.mpr ⟨h.nodup, List.nodup_singleton x, by grind⟩
    · exact h.nodup
  · rw [nodes_release, hc, hm.nodes_eq]
    have hlt := h.lt
    grind
  · rw [nodes_release, hc, hm.nodes_eq, hcount]
    have hiff := h.mem_iff y hy
    grind
  · have hb := h.balance y hy
    have hwy := hw y
    rw [nodes_release, owes_release, hc, hm.nodes_eq, hcount]
    have hsettled : settled rows (p.nodes ++ [x]) y =
        settled rows p.nodes y + (rows.getD x []).count y := by
      simp [settled]
    grind

end Release

theorem step (h : p.Sound n rows) (hs : Step n rows p q) : q.Sound n rows := by
  cases hs with
  | refuse ht _ | accept ht _ | enter ht | pass ht | fail _ ht | flag ht | hand ht | mark ht =>
    exact h.moved (Pool.moved h.nodup ht rfl) rfl fun x _ => rfl
  | skip ht hx =>
    refine h.moved (Pool.moved h.nodup ht rfl) rfl fun y hy => ?_
    simp only [Stage.owes]
    rw [List.count_cons_of_ne (by omega)]
  | release ht hx => exact h.release (Pool.moved h.nodup ht rfl) rfl hx

end Sound

/-- When a node has a task, the tasks of all that it waited for have marked their nodes. -/
theorem Sound.releasing_of_mem (h : p.Sound n rows) {i j : Nat} (hi : i ∈ p.nodes)
    (hj : i ∈ rows.getD j []) : ∃ todo, p.stageOf j = some (.releasing todo) := by
  have hb := h.balance i (h.lt i hi)
  have hle := h.settled_le i
  rw [(h.mem_iff i (h.lt i hi)).mp hi] at hb
  have hall := (settled_eq_iff (Nat.le_max_right n rows.length) h.nodup
    (fun j hj => Nat.lt_of_lt_of_le (h.lt j hj) (Nat.le_max_left _ _)) i).mp (by omega)
  obtain ⟨stage, hstage⟩ := mem_nodes_iff.mp (hall j hj)
  obtain ⟨k, hk⟩ := exists_task hstage
  have hzero : p.owes rows i = 0 := by omega
  have howes : stage.owes (rows.getD j []) i = 0 :=
    List.sum_eq_zero_iff_forall_eq_nat.mp hzero _
      (List.mem_map.mpr ⟨_, List.mem_of_getElem? hk, rfl⟩)
  cases stage with
  | releasing todo => exact ⟨todo, hstage⟩
  | spawned | refused | admitted | visiting | passed | broken | flagged | noted =>
    exact absurd hj (List.count_eq_zero.mp howes)

/-! ### Events -/

/-- What holds of what has happened at any time. -/
structure Told (rows : List (List Nat)) (p : Pool ε) : Prop where
  /-- What has happened to a node is what the stage of its task says, if it has one. -/
  history : ∀ i, p.eventsOf i = ((p.stageOf i).map (Stage.history i)).getD []
  /-- A node is entered when the visits of all that it waits for have succeeded. -/
  forward : ∀ a i b, p.events = a ++ .entered i :: b → ∀ j, i ∈ rows.getD j [] → .passed j ∈ a

namespace Told

theorem mem_iff (h : p.Told rows) {i : Nat} {stage : Stage ε} (hs : p.stageOf i = some stage)
    {e : Event ε} (he : e.node = i) : e ∈ p.events ↔ e ∈ stage.history i := by
  have hi := h.history i
  rw [hs, Option.map_some, Option.getD_some] at hi
  rw [← hi, eventsOf, List.mem_filter, he]
  simp

/-- Whatever happened, happened to a node with a task. -/
theorem exists_stage (h : p.Told rows) {e : Event ε} (he : e ∈ p.events) :
    ∃ stage, p.stageOf e.node = some stage ∧ e ∈ stage.history e.node := by
  have hm : e ∈ p.eventsOf e.node := List.mem_filter.mpr ⟨he, by simp⟩
  rw [h.history] at hm
  cases hs : p.stageOf e.node with
  | none =>
    rw [hs] at hm
    cases hm
  | some stage =>
    rw [hs] at hm
    exact ⟨stage, rfl, hm⟩

theorem start (n : Nat) (rows : List (List Nat)) : (start n rows : Pool ε).Told rows := by
  refine ⟨fun i => ?_, fun a i b h => ?_⟩
  · cases hs : (Pool.start n rows : Pool ε).stageOf i with
    | none => rfl
    | some stage =>
      obtain ⟨k, hk⟩ := exists_task hs
      obtain ⟨j, -, hj⟩ := List.mem_map.mp (List.mem_of_getElem? hk)
      cases hj
      rfl
  · exact absurd h (by simp [Pool.start])

/-- A task comes to another stage, and what happens is in its history. -/
theorem moved (h : p.Told rows) {i : Nat} {stage stage' : Stage ε} (hm : Moved p q i stage stage')
    {l : List (Event ε)} (hl : ∀ e ∈ l, e.node = i) (he : q.events = p.events ++ l)
    (hh : stage'.history i = stage.history i ++ l) (j : Nat) :
    q.eventsOf j = ((q.stageOf j).map (Stage.history j)).getD [] := by
  have happend : q.eventsOf j = p.eventsOf j ++ l.filter fun e => e.node = j := by
    rw [eventsOf, he, List.filter_append]
    rfl
  rw [happend, h.history, hm.stageOf_eq]
  by_cases hj : j = i
  · subst hj
    have hall : (l.filter fun e => e.node = j) = l :=
      List.filter_eq_self.mpr fun e he => decide_eq_true (hl e he)
    rw [if_pos rfl, hm.before, hall]
    exact hh.symm
  · have hnone : (l.filter fun e => e.node = j) = [] :=
      List.filter_eq_nil_iff.mpr fun e he => by simp [hl e he, Ne.symm hj]
    rw [if_neg hj, hnone, List.append_nil]

theorem quiet (h : p.Told rows) {i : Nat} {stage stage' : Stage ε} (hm : Moved p q i stage stage')
    (he : q.events = p.events) (hh : stage'.history i = stage.history i) : q.Told rows :=
  ⟨h.moved hm (l := []) nofun (by rw [he, List.append_nil]) (by rw [hh, List.append_nil]),
    he ▸ h.forward⟩

/-- One more event, which may be that a node is entered all of whose predecessors have passed. -/
theorem forward_append (h : p.Told rows) {e : Event ε}
    (he : ∀ i, e = .entered i → ∀ j, i ∈ rows.getD j [] → .passed j ∈ p.events)
    {a b : List (Event ε)} {i : Nat} (hs : p.events ++ [e] = a ++ .entered i :: b) (j : Nat)
    (hj : i ∈ rows.getD j []) : .passed j ∈ a := by
  rcases List.eq_nil_or_concat b with rfl | ⟨b, x, rfl⟩
  · obtain ⟨rfl, hx⟩ := List.append_inj' hs rfl
    exact he i (List.cons.inj hx).1 j hj
  · rw [List.concat_eq_append, ← List.cons_append, ← List.append_assoc] at hs
    exact h.forward a i b (List.append_inj' hs rfl).1 j hj

theorem step (h : p.Told rows) (hp : p.Sound n rows) (hs : Step n rows p q) : q.Told rows := by
  cases hs with
  | refuse ht _ | accept ht _ | flag ht | hand ht | mark ht | skip ht _ =>
    exact h.quiet (Pool.moved hp.nodup ht rfl) rfl rfl
  | @enter k i ht =>
    have hm := Pool.moved hp.nodup ht (q := (p.move k i .visiting).note (.entered i)) rfl
    refine ⟨h.moved hm (l := [.entered i]) (by simp [Event.node]) rfl rfl, fun a x b hx => ?_⟩
    refine h.forward_append (fun y hy j hj => ?_) hx
    cases hy
    obtain ⟨todo, hstage⟩ := hp.releasing_of_mem (mem_nodes_iff.mpr ⟨_, hm.before⟩) hj
    exact (h.mem_iff hstage rfl).mpr (by simp [Stage.history])
  | @pass k i ht =>
    have hm := Pool.moved hp.nodup ht (q := (p.move k i .passed).note (.passed i)) rfl
    exact ⟨h.moved hm (l := [.passed i]) (by simp [Event.node]) rfl rfl,
      fun a x b hx => h.forward_append (fun _ hy => by cases hy) hx⟩
  | @fail k i e ht =>
    have hm := Pool.moved hp.nodup ht (q := (p.move k i (.broken e)).note (.failed i e)) rfl
    exact ⟨h.moved hm (l := [.failed i e]) (by simp [Event.node]) rfl rfl,
      fun a x b hx => h.forward_append (fun _ hy => by cases hy) hx⟩
  | @release k i x todo ht hx =>
    have hm := Pool.moved hp.nodup ht (q := p.move k i (.releasing todo)) rfl
    have hq : (p.move k i (.releasing todo)).Told rows := h.quiet hm rfl rfl
    refine ⟨fun j => ?_, hq.forward⟩
    have hnot := hp.not_mem_of_owes hm hx
    rw [stageOf_release (fun _ => hm.nodes_eq ▸ hnot)]
    have hj := hq.history j
    split
    case isTrue hjx =>
      rw [stageOf_eq_none (hm.nodes_eq ▸ hjx.2 ▸ hnot)] at hj
      exact hj
    case isFalse => exact hj

end Told

/-! ### Marks and the flag -/

/-- What holds of the marks of visited nodes at any time. -/
structure Marked (n : Nat) (p : Pool ε) : Prop where
  size : p.processed.size = n
  processed_iff : ∀ i < n, p.processed.getD i false = true ↔
    ∃ todo, p.stageOf i = some (.releasing todo)

namespace Marked

theorem start (n : Nat) (rows : List (List Nat)) : (start n rows : Pool ε).Marked n := by
  refine ⟨Array.size_replicate, fun i hi => ?_⟩
  constructor
  · intro h
    simp [Pool.start, Array.getD_eq_getD_getElem?, hi] at h
  · rintro ⟨todo, hs⟩
    obtain ⟨k, hk⟩ := exists_task hs
    obtain ⟨j, -, hj⟩ := List.mem_map.mp (List.mem_of_getElem? hk)
    cases hj

theorem moved (h : p.Marked n) {i : Nat} {stage stage' : Stage ε} (hm : Moved p q i stage stage')
    (he : q.processed = p.processed)
    (hr : (∃ todo, stage' = .releasing todo) ↔ ∃ todo, stage = .releasing todo) : q.Marked n := by
  refine ⟨he ▸ h.size, fun j hj => ?_⟩
  rw [he, h.processed_iff j hj, hm.stageOf_eq]
  by_cases hji : j = i
  · subst hji
    simpa [hm.before] using hr.symm
  · rw [if_neg hji]

theorem step (h : p.Marked n) (hp : p.Sound n rows) (hs : Step n rows p q) : q.Marked n := by
  cases hs with
  | refuse ht _ | accept ht _ | enter ht | pass ht | fail _ ht | flag ht | hand ht =>
    exact h.moved (Pool.moved hp.nodup ht rfl) rfl (by simp)
  | skip ht hx => exact h.moved (Pool.moved hp.nodup ht rfl) rfl (by simp)
  | @mark k i ht =>
    have hm := Pool.moved hp.nodup ht (q := (p.move k i (.releasing (rows.getD i []))).mark i) rfl
    refine ⟨?_, fun j hj => ?_⟩
    · rw [← h.size]
      exact Array.size_setIfInBounds
    · rw [hm.stageOf_eq]
      show (p.processed.setIfInBounds i true).getD j false = true ↔ _
      rw [getD_setIfInBounds, h.size]
      by_cases hji : j = i
      · simp [hji, hji ▸ hj]
      · rw [if_neg fun h => hji h.1, if_neg hji]
        exact h.processed_iff j hj
  | @release k i x todo ht hx =>
    have hm := Pool.moved hp.nodup ht (q := p.move k i (.releasing todo)) rfl
    have hq : (p.move k i (.releasing todo)).Marked n := h.moved hm rfl (by simp)
    refine ⟨hq.size, fun j hj => (hq.processed_iff j hj).trans ?_⟩
    have hnot := hp.not_mem_of_owes hm hx
    rw [stageOf_release (fun _ => hm.nodes_eq ▸ hnot)]
    split
    case isTrue hjx =>
      rw [stageOf_eq_none (hm.nodes_eq ▸ hjx.2 ▸ hnot)]
      simp
    case isFalse => rfl

end Marked

end Pool

/-- A stage that has nothing to do with the flag. -/
def Stage.IsPlain {ε : Type} : Stage ε → Prop
  | spawned | admitted | visiting | passed | releasing _ | broken _ => True
  | refused | flagged _ | noted _ => False

namespace Pool

variable {ε : Type} {n : Nat} {rows : List (List Nat)} {p q : Pool ε}

/-- What holds of the flag and of the error at any time. -/
structure Flagged (p : Pool ε) : Prop where
  refused : ∀ i, p.stageOf i = some .refused → p.failed = true
  flagged : p.failed = true →
    ∃ i e, p.stageOf i = some (.flagged e) ∨ p.stageOf i = some (.noted e)
  failure : ∀ e, p.failure = some e → ∃ i, p.stageOf i = some (.noted e)
  noted : ∀ i e, p.stageOf i = some (.noted e) → p.failure.isSome = true

namespace Flagged

theorem start (n : Nat) (rows : List (List Nat)) : (start n rows : Pool ε).Flagged := by
  have hspawned (i : Nat) (stage : Stage ε) (hs : (Pool.start n rows).stageOf i = some stage) :
      stage = .spawned := by
    obtain ⟨k, hk⟩ := exists_task hs
    obtain ⟨j, -, hj⟩ := List.mem_map.mp (List.mem_of_getElem? hk)
    cases hj
    rfl
  refine ⟨fun i hi => ?_, fun h => ?_, fun e h => ?_, fun i e hi => ?_⟩
  · cases hspawned i _ hi
  · cases h
  · cases h
  · cases hspawned i _ hi

theorem moved (h : p.Flagged) {i : Nat} {stage stage' : Stage ε} (hm : Moved p q i stage stage')
    (hs : stage.IsPlain) (hs' : stage'.IsPlain) (hf : q.failed = p.failed)
    (he : q.failure = p.failure) : q.Flagged := by
  have hother (j : Nat) (t : Stage ε) (ht : ¬ t.IsPlain) :
      q.stageOf j = some t ↔ p.stageOf j = some t := by
    rw [hm.stageOf_eq]
    by_cases hj : j = i
    · subst hj
      rw [if_pos rfl, hm.before, Option.some_inj, Option.some_inj]
      constructor <;> rintro rfl <;> contradiction
    · rw [if_neg hj]
  refine ⟨fun j hj => ?_, fun hp => ?_, fun e hp => ?_, fun j e hj => ?_⟩
  · rw [hf]
    exact h.refused j ((hother j _ id).mp hj)
  · obtain ⟨j, e, hj⟩ := h.flagged (hf ▸ hp)
    exact ⟨j, e, hj.imp (hother j _ id).mpr (hother j _ id).mpr⟩
  · obtain ⟨j, hj⟩ := h.failure e (he ▸ hp)
    exact ⟨j, (hother j _ id).mpr hj⟩
  · rw [he]
    exact h.noted j e ((hother j _ id).mp hj)

theorem step (h : p.Flagged) (hp : p.Sound n rows) (hs : Step n rows p q) : q.Flagged := by
  cases hs with
  | accept ht _ | enter ht | pass ht | fail _ ht | mark ht | skip ht _ =>
    exact h.moved (Pool.moved hp.nodup ht rfl) trivial trivial rfl rfl
  | @refuse k i ht hf =>
    have hm := Pool.moved hp.nodup ht (q := p.move k i .refused) rfl
    have hbefore := hm.before
    refine ⟨fun _ _ => hf, fun hp => ?_, fun e hp => ?_, fun j e hj => ?_⟩
    · obtain ⟨j, e, hj⟩ := h.flagged hp
      refine ⟨j, e, ?_⟩
      rw [hm.stageOf_eq]
      grind
    · obtain ⟨j, hj⟩ := h.failure e hp
      refine ⟨j, ?_⟩
      rw [hm.stageOf_eq]
      grind
    · rw [hm.stageOf_eq] at hj
      exact h.noted j e (by grind)
  | @flag k i e ht =>
    have hm := Pool.moved hp.nodup ht (q := (p.move k i (.flagged e)).raise) rfl
    have hbefore := hm.before
    refine ⟨fun _ _ => rfl, fun _ => ⟨i, e, .inl ?_⟩, fun e' hp => ?_, fun j e' hj => ?_⟩
    · rw [hm.stageOf_eq, if_pos rfl]
    · obtain ⟨j, hj⟩ := h.failure e' hp
      refine ⟨j, ?_⟩
      rw [hm.stageOf_eq]
      grind
    · rw [hm.stageOf_eq] at hj
      exact h.noted j e' (by grind)
  | @hand k i e ht =>
    have hm := Pool.moved hp.nodup ht (q := (p.move k i (.noted e)).hand e) rfl
    have hbefore := hm.before
    refine ⟨fun j hj => ?_, fun hp => ⟨i, e, .inr ?_⟩, fun e' hp => ?_, fun _ _ _ => rfl⟩
    · rw [hm.stageOf_eq] at hj
      exact h.refused j (by grind)
    · rw [hm.stageOf_eq, if_pos rfl]
    · replace hp : p.failure.getD e = e' := Option.some.inj hp
      cases hf : p.failure with
      | none =>
        rw [hf, Option.getD_none] at hp
        exact ⟨i, by rw [hm.stageOf_eq, if_pos rfl, hp]⟩
      | some e₀ =>
        rw [hf, Option.getD_some] at hp
        obtain ⟨j, hj⟩ := h.failure e₀ hf
        refine ⟨j, ?_⟩
        rw [hm.stageOf_eq]
        grind
  | @release k i x todo ht hx =>
    have hm := Pool.moved hp.nodup ht (q := p.move k i (.releasing todo)) rfl
    have hq : (p.move k i (.releasing todo)).Flagged := h.moved hm trivial trivial rfl rfl
    have hnot := hp.not_mem_of_owes hm hx
    have hnone : (p.move k i (.releasing todo)).stageOf x = none :=
      stageOf_eq_none (hm.nodes_eq ▸ hnot)
    have hstage := stageOf_release (p := p.move k i (.releasing todo)) (x := x)
      (fun _ => hm.nodes_eq ▸ hnot)
    refine ⟨fun j hj => ?_, fun hp => ?_, fun e hp => ?_, fun j e hj => ?_⟩
    · rw [hstage] at hj
      exact hq.refused j (by grind)
    · obtain ⟨j, e, hj⟩ := hq.flagged hp
      refine ⟨j, e, ?_⟩
      rw [hstage]
      grind
    · obtain ⟨j, hj⟩ := hq.failure e hp
      refine ⟨j, ?_⟩
      rw [hstage]
      grind
    · rw [hstage] at hj
      exact hq.noted j e (by grind)

end Flagged

/-! ## Runs -/

/-- What holds of a pool at any time. -/
structure Kept (n : Nat) (rows : List (List Nat)) (p : Pool ε) : Prop where
  sound : p.Sound n rows
  told : p.Told rows
  marked : p.Marked n
  flagged : p.Flagged
  /-- Only nodes that can be visited get tasks. -/
  mem_order : ∀ i ∈ p.nodes, i ∈ order n rows

/-- A node can be visited if all that it waits for can. -/
theorem mem_order_of_forall {i : Nat} (hi : i < n)
    (h : ∀ j, i ∈ rows.getD j [] → j ∈ order n rows) : i ∈ order n rows := by
  by_contra hnot
  obtain ⟨j, hj, -, hjm⟩ := (peels_order n rows).left_over i hi List.not_mem_nil hnot
  exact hjm (h j hj)

theorem kept_start (n : Nat) (rows : List (List Nat)) : (start n rows : Pool ε).Kept n rows := by
  have hs := Sound.start (ε := ε) n rows
  refine ⟨hs, .start n rows, .start n rows, .start n rows, fun i hi => ?_⟩
  refine mem_order_of_forall (hs.lt i hi) fun j hj => ?_
  obtain ⟨todo, ht⟩ := hs.releasing_of_mem hi hj
  obtain ⟨k, hk⟩ := exists_task ht
  obtain ⟨x, -, hx⟩ := List.mem_map.mp (List.mem_of_getElem? hk)
  cases hx

theorem Kept.step (h : p.Kept n rows) (hs : Step n rows p q) : q.Kept n rows := by
  have hsound := h.sound.step hs
  refine ⟨hsound, h.told.step h.sound hs, h.marked.step h.sound hs, h.flagged.step h.sound hs, ?_⟩
  have same {i : Nat} {stage stage' : Stage ε} (hm : Moved p q i stage stage') :
      ∀ i ∈ q.nodes, i ∈ order n rows := by
    rw [hm.nodes_eq]
    exact h.mem_order
  cases hs with
  | refuse ht _ | accept ht _ | enter ht | pass ht | fail _ ht | flag ht | hand ht | mark ht
  | skip ht _ => exact same (moved h.sound.nodup ht rfl)
  | @release k i x todo ht hx =>
    have hm := moved h.sound.nodup ht (q := p.move k i (.releasing todo)) rfl
    have hnot := h.sound.not_mem_of_owes hm hx
    have hstage := stageOf_release (p := p.move k i (.releasing todo)) (x := x)
      (fun _ => hm.nodes_eq ▸ hnot)
    have hnodes := nodes_release (p.move k i (.releasing todo)) x
    intro y hy
    by_cases hyp : y ∈ p.nodes
    · exact h.mem_order y hyp
    · rw [hnodes, hm.nodes_eq] at hy
      -- the node that was spawned waits for nodes whose tasks were there before
      obtain ⟨hone, rfl⟩ : (p.move k i (.releasing todo)).counts.getD x 0 = 1 ∧ y = x := by
        split at hy
        · exact ⟨‹_›, by simpa [hyp] using hy⟩
        · exact absurd hy hyp
      refine mem_order_of_forall hx fun j hj => h.mem_order j ?_
      obtain ⟨todo', ht'⟩ := hsound.releasing_of_mem
        (by rw [hnodes, if_pos hone]; exact List.mem_append_right _ List.mem_cons_self) hj
      rw [hstage] at ht'
      split at ht'
      · cases ht'
      · exact hm.nodes_eq ▸ mem_nodes_iff.mpr ⟨_, ht'⟩

theorem kept_of_run (h : ReflTransGen (Step n rows) (start n rows) p) : p.Kept n rows := by
  induction h with
  | refl => exact kept_start n rows
  | tail _ hs ih => exact ih.step hs

/-- Tasks that take no step have given up, handed in their error, or counted down all. -/
theorem Quiescent.stage_cases (h : Quiescent n rows p) {i : Nat} {stage : Stage ε}
    (hs : p.stageOf i = some stage) :
    stage = .refused ∨ stage = .releasing [] ∨ ∃ e, stage = .noted e := by
  obtain ⟨k, hk⟩ := exists_task hs
  cases stage with
  | refused => exact .inl rfl
  | noted e => exact .inr (.inr ⟨e, rfl⟩)
  | spawned =>
    cases hf : p.failed with
    | true => exact absurd (.refuse hk hf) (h _)
    | false => exact absurd (.accept hk hf) (h _)
  | admitted => exact absurd (.enter hk) (h _)
  | visiting => exact absurd (.pass hk) (h _)
  | passed => exact absurd (.mark hk) (h _)
  | broken e => exact absurd (.flag hk) (h _)
  | flagged e => exact absurd (.hand hk) (h _)
  | releasing todo =>
    cases todo with
    | nil => exact .inr (.inl rfl)
    | cons x todo =>
      by_cases hx : x < n
      · exact absurd (.release hk hx) (h _)
      · exact absurd (.skip hk (Nat.not_lt.mp hx)) (h _)

namespace Kept

theorem failed_of_stage (h : p.Kept n rows) {i : Nat} {e : ε}
    (hs : p.stageOf i = some (.flagged e) ∨ p.stageOf i = some (.noted e)) :
    .failed i e ∈ p.events := by
  rcases hs with hs | hs <;> exact (h.told.mem_iff hs rfl).mpr (by simp [Stage.history])

/-- What was handed in is the error of a visit. -/
theorem failed_of_failure (h : p.Kept n rows) {e : ε} (hf : p.failure = some e) :
    ∃ i, .failed i e ∈ p.events := by
  obtain ⟨i, hi⟩ := h.flagged.failure e hf
  exact ⟨i, h.failed_of_stage (.inr hi)⟩

/-- No task gives up unless a visit fails. -/
theorem releasing_of_quiescent (h : p.Kept n rows) (hq : Quiescent n rows p)
    (hf : ∀ i e, .failed i e ∉ p.events) {i : Nat} (hi : i ∈ p.nodes) :
    p.stageOf i = some (.releasing []) := by
  obtain ⟨stage, hs⟩ := mem_nodes_iff.mp hi
  rcases hq.stage_cases hs with rfl | rfl | ⟨e, rfl⟩
  · obtain ⟨j, e, hj⟩ := h.flagged.flagged (h.flagged.refused i hs)
    exact absurd (h.failed_of_stage hj) (hf j e)
  · exact hs
  · exact absurd (h.failed_of_stage (.inr hs)) (hf i e)

/-- All nodes that can be visited have had their tasks when none is left, unless a visit failed. -/
theorem mem_nodes_of_quiescent (h : p.Kept n rows) (hq : Quiescent n rows p)
    (hf : ∀ i e, .failed i e ∉ p.events) {i : Nat} (hi : i ∈ order n rows) : i ∈ p.nodes := by
  have hzero (x : Nat) : p.owes rows x = 0 := by
    refine List.sum_eq_zero_iff_forall_eq_nat.mpr fun c hc => ?_
    obtain ⟨t, ht, rfl⟩ := List.mem_map.mp hc
    have hstage := h.releasing_of_quiescent hq hf (List.mem_map_of_mem ht)
    rw [stageOf_of_mem h.sound.nodup ht, Option.some_inj] at hstage
    rw [hstage]
    rfl
  -- by induction along the order of visits
  have key (a : List Nat) : ∀ b, order n rows = a ++ b → ∀ i ∈ a, i ∈ p.nodes := by
    induction a using List.reverseRecOn with
    | nil => exact fun _ _ _ hi => absurd hi List.not_mem_nil
    | append_singleton a x ih =>
      intro b hb i hi
      rw [List.append_assoc] at hb
      rcases List.mem_append.mp hi with hi | hi
      · exact ih _ hb i hi
      · obtain rfl := List.mem_singleton.mp hi
        have hlt : i < n := lt_of_mem_order (by rw [hb]; simp)
        have hsettled := (settled_eq_iff (Nat.le_max_right n rows.length) h.sound.nodup
          (fun j hj => Nat.lt_of_lt_of_le (h.sound.lt j hj) (Nat.le_max_left _ _)) i).mpr
          fun j hj => ih _ hb j (forward_order n rows a i b hb j ⟨hlt, hj⟩)
        have hb := h.sound.balance i hlt
        rw [hzero] at hb
        exact (h.sound.mem_iff i hlt).mpr (by omega)
  exact key (order n rows) [] (List.append_nil _).symm i hi

/-- Without a failure, the marks are those of the visits one after the other. -/
theorem processed_eq (h : p.Kept n rows) (hq : Quiescent n rows p)
    (hf : ∀ i e, .failed i e ∉ p.events) (i : Nat) :
    p.processed.getD i false = Summary.includes ⟨n, order n rows⟩ i := by
  rw [Summary.includes_eq]
  by_cases hi : i < n
  · rw [Bool.eq_iff_iff, h.marked.processed_iff i hi, decide_eq_true_iff]
    constructor
    · rintro ⟨todo, hs⟩
      exact ⟨hi, h.mem_order i (mem_nodes_iff.mpr ⟨_, hs⟩)⟩
    · rintro ⟨-, hm⟩
      exact ⟨[], h.releasing_of_quiescent hq hf (h.mem_nodes_of_quiescent hq hf hm)⟩
  · rw [decide_eq_false fun h => hi h.1, Array.getD_eq_getD_getElem?,
      Array.getElem?_eq_none (h.marked.size.trans_le (Nat.not_lt.mp hi))]
    rfl

theorem result_eq_ok (h : p.Kept n rows) (hf : ∀ i e, .failed i e ∉ p.events) :
    p.result = .ok p.processed := by
  cases he : p.failure with
  | none => rw [result, he]
  | some e =>
    obtain ⟨i, hi⟩ := h.failed_of_failure he
    exact absurd hi (hf i e)

/-- When a visit fails, its error or that of another one is handed in. -/
theorem result_eq_error (h : p.Kept n rows) (hq : Quiescent n rows p) {i : Nat} {e : ε}
    (hi : .failed i e ∈ p.events) : ∃ j e', .failed j e' ∈ p.events ∧ p.result = .error e' := by
  obtain ⟨stage, hs, hm⟩ := h.told.exists_stage hi
  have hsome : p.failure.isSome = true := by
    rcases hq.stage_cases hs with rfl | rfl | ⟨e', rfl⟩
    · simp [Stage.history] at hm
    · simp [Stage.history] at hm
    · exact h.flagged.noted _ e' hs
  obtain ⟨e', he⟩ := Option.isSome_iff_exists.mp hsome
  obtain ⟨j, hj⟩ := h.failed_of_failure he
  exact ⟨j, e', hj, by rw [result, he]⟩

theorem entered_of_passed (h : p.Kept n rows) {i : Nat} (hi : .passed i ∈ p.events) :
    .entered i ∈ p.events := by
  obtain ⟨stage, hs, hm⟩ := h.told.exists_stage hi
  refine (h.told.mem_iff (e := .entered i) hs rfl).mpr ?_
  cases stage <;> simp_all [Stage.history, Event.node]

/-- What is behind a node is entered only if the visit of that node succeeds. -/
theorem passed_of_transGen (h : p.Kept n rows) {i k : Nat} (hik : TransGen (Edge n rows) i k)
    (hk : .entered k ∈ p.events) : .passed i ∈ p.events := by
  induction hik with
  | single he =>
    obtain ⟨a, b, hab⟩ := List.append_of_mem hk
    rw [hab]
    exact List.mem_append_left _ (h.told.forward a _ b hab i he.2)
  | @tail m k _ he ih =>
    obtain ⟨a, b, hab⟩ := List.append_of_mem hk
    refine ih (h.entered_of_passed ?_)
    rw [hab]
    exact List.mem_append_left _ (h.told.forward a k b hab m he.2)

theorem not_passed_of_failed (h : p.Kept n rows) {i : Nat} {e : ε} (hi : .failed i e ∈ p.events) :
    .passed i ∉ p.events := by
  obtain ⟨stage, hs, hm⟩ := h.told.exists_stage hi
  intro hp
  have hp' := (h.told.mem_iff hs (e := .passed i) rfl).mp hp
  cases stage <;> simp_all [Stage.history, Event.node]

/-- No node is entered twice. -/
theorem not_entered_twice (h : p.Kept n rows) (i : Nat) :
    ¬ List.Sublist [.entered i, .entered i] p.events := by
  intro hsub
  have hfilter := hsub.filter fun e => e.node = i
  rw [show p.events.filter (fun e => e.node = i) = p.eventsOf i from rfl, h.told.history] at hfilter
  cases hs : p.stageOf i with
  | none => simp [hs, Event.node] at hfilter
  | some stage => cases stage <;> simp [hs, Event.node, Stage.history] at hfilter

end Kept

/-- **Visits by tasks of their own are safe under every interleaving**: a node gets at most one task
and is entered at most once, when the visits of all that it waits for have succeeded; no count is
taken below zero; when no task is left, the marked nodes are those of the visits one after the other,
or an error that some visit has failed with is returned; and what is behind a failed visit is never
entered. -/
theorem every_interleaving_safe (n : Nat) (rows : List (List Nat)) (p : Pool ε)
    (h : ReflTransGen (Step n rows) (start n rows) p) :
    p.nodes.Nodup ∧ (∀ i, ¬ List.Sublist [.entered i, .entered i] p.events) ∧
    (∀ a i b, p.events = a ++ .entered i :: b → ∀ j, i ∈ rows.getD j [] → .passed j ∈ a) ∧
    (∀ (k i x : Nat) (todo : List Nat), p.tasks[k]? = some ⟨i, .releasing (x :: todo)⟩ → x < n →
      0 < p.counts.getD x 0) ∧
    (Quiescent n rows p → (∀ i e, .failed i e ∉ p.events) → p.result = .ok p.processed ∧
      ∀ i, p.processed.getD i false = Summary.includes ⟨n, order n rows⟩ i) ∧
    (Quiescent n rows p → ∀ i e, .failed i e ∈ p.events →
      ∃ j e', .failed j e' ∈ p.events ∧ p.result = .error e') ∧
    ∀ i e k, .failed i e ∈ p.events → TransGen (Edge n rows) i k → .entered k ∉ p.events := by
  have hk := kept_of_run h
  refine ⟨hk.sound.nodup, hk.not_entered_twice, hk.told.forward, fun k i x todo ht hx => ?_,
    fun hq hf => ⟨hk.result_eq_ok hf, hk.processed_eq hq hf⟩, fun hq i e => hk.result_eq_error hq,
    fun i e k hf hik he => ?_⟩
  · exact hk.sound.pos_of_owes (moved hk.sound.nodup ht (q := p.move k i (.releasing todo)) rfl) hx
  · exact hk.not_passed_of_failed hf (hk.passed_of_transGen hik he)

/-- One node waits twice for the other, and its task is spawned once. -/
theorem every_interleaving_safe_twice : ∃ p : Pool Unit,
    ReflTransGen (Step 2 [[1, 1], []]) (start 2 [[1, 1], []]) p ∧ p.nodes = [0, 1] ∧
      p.nodes.Nodup := by
  let row : List Nat := [1, 1]
  let p₁ : Pool Unit := (start 2 [row, []]).move 0 0 .admitted
  let p₂ := (p₁.move 0 0 .visiting).note (.entered 0)
  let p₃ := (p₂.move 0 0 .passed).note (.passed 0)
  let p₄ := (p₃.move 0 0 (.releasing row)).mark 0
  let p₅ := (p₄.move 0 0 (.releasing [1])).release 1
  let p₆ := (p₅.move 0 0 (.releasing [])).release 1
  have h₁ : Step 2 [row, []] (start 2 [row, []]) p₁ := .accept (by rfl) rfl
  have h₂ : Step 2 [row, []] p₁ p₂ := .enter (by rfl)
  have h₃ : Step 2 [row, []] p₂ p₃ := .pass (by rfl)
  have h₄ : Step 2 [row, []] p₃ p₄ := .mark (by rfl)
  have h₅ : Step 2 [row, []] p₄ p₅ := .release (by rfl) (by decide)
  have h₆ : Step 2 [row, []] p₅ p₆ := .release (by rfl) (by decide)
  have run : ReflTransGen (Step 2 [row, []]) (start 2 [row, []]) p₆ :=
    .tail (.tail (.tail (.tail (.tail (.single h₁) h₂) h₃) h₄) h₅) h₆
  exact ⟨p₆, run, by rfl, (every_interleaving_safe 2 [row, []] p₆ run).1⟩

end Pool

end Dataflow.Peel
