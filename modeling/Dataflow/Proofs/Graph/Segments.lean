import Dataflow.Proofs.Graph.Numbers

/-!
# Graphs of segments

Instructions that make one value, with the arguments before them, are a segment, and so is a
function with its body. A list of segments whose operands name earlier values is well formed, and its
graph can be read off: a block for each segment, functions first.

* `Segment`, `Segment.codes`: segments and their instructions;
* `Segment.AllSound`: what the segments of a level read is there already;
* `Segment.allNumbered`, `Instruction.Settled`: the same of their instructions, one by one;
* `Segment.FunctionsOf`, `Segment.stepsOf`: the blocks of the segments of a level;
* **`Graph.build_codes`**: the graph of sound segments.
-/

namespace Dataflow

/-- Instructions that belong together: those of one value, with its arguments, or a function. -/
inductive Segment where
  | value (args : List ValueId) (i : Instruction)
  | function (params : UInt32) (body : List Segment)

namespace Segment

mutual

/-- The instructions of a segment. -/
def code : Segment → List Instruction
  | value args i => args.map .argument ++ [i]
  | function params body => .enter params :: codes body ++ [.leave]

/-- The instructions of segments in order. -/
def codes : List Segment → List Instruction
  | [] => []
  | p :: ps => code p ++ codes ps

end

/-- How many of the segments are functions. -/
def functions : List Segment → Nat
  | [] => 0
  | value _ _ :: ps => functions ps
  | function _ _ :: ps => functions ps + 1

/-- How many of the segments are values. -/
def values : List Segment → Nat
  | [] => 0
  | value _ _ :: ps => values ps + 1
  | function _ _ :: ps => values ps

/-- The instruction makes a value of the arguments before it; only a call takes any. -/
def Produces (args : List ValueId) : Instruction → Prop
  | .call _ => True
  | .constant _ | .field .. | .copy _ => args = []
  | .argument _ | .enter _ | .leave => False

mutual

/-- A segment that reads only values with numbers below `next`. -/
def Sound (next : Nat) : Segment → Prop
  | value args i => Produces args i ∧ ∀ id ∈ args ++ i.operand?.toList, id.toInt < next
  | function params body => body ≠ [] ∧
    next + params.toNat + functions body + values body < 2 ^ 31 ∧
    AllSound (next + params.toNat + functions body) body

/-- Segments whose values have the numbers from `next` on and read only values before them. -/
def AllSound (next : Nat) : List Segment → Prop
  | [] => True
  | p :: ps => Sound next p ∧ AllSound (next + values [p]) ps

end

mutual

/-- Every value of a segment is made by an instruction that makes one. -/
def Regular : Segment → Prop
  | value args i => Produces args i
  | function _ body => AllRegular body

/-- Every value of the segments is made by an instruction that makes one. -/
def AllRegular : List Segment → Prop
  | [] => True
  | p :: ps => Regular p ∧ AllRegular ps

end

mutual

/-- The instructions of a segment, each with the number of the next value of its level. -/
def numbered (next : Nat) : Segment → List (Instruction × Nat)
  | value args i => (args.map Instruction.argument ++ [i]).map (·, next)
  | function params body => (.enter params, next) ::
      allNumbered (next + params.toNat + functions body) body ++
        [(.leave, next + params.toNat + functions body + values body)]

/-- The instructions of segments, each with the number of the next value of its level. -/
def allNumbered (next : Nat) : List Segment → List (Instruction × Nat)
  | [] => []
  | p :: ps => numbered next p ++ allNumbered (next + values [p]) ps

end

end Segment

/-- The numbers that an instruction needs are in range, where the next value of its level has the
number `next`: a value has that number, a function has its parameters from there on and its first
value after them. -/
def Instruction.Fits (next : Nat) : Instruction → Prop
  | leave => True
  | enter params => next + params.toNat < 2 ^ 31
  | argument _ | call _ | constant _ | field .. | copy _ => next < 2 ^ 31

theorem Instruction.Fits.lt {next : Nat} {i : Instruction} (h : i.Fits next) (hi : i ≠ .leave) :
    next < 2 ^ 31 := by
  cases i with
  | leave => exact absurd rfl hi
  | enter => exact Nat.lt_of_le_of_lt (Nat.le_add_right ..) h
  | argument | call | constant | field | copy => exact h

/-- An instruction in a level whose next value has the number `next`: its numbers are in range, and
only values with lower numbers are read. -/
def Instruction.Settled (next : Nat) (i : Instruction) : Prop :=
  i.Fits next ∧ ∀ id ∈ i.operand?, id.toInt < next

namespace Segment

/-- The blocks of the values among segments, with the numbers from `next` on. -/
def stepsOf (next : Nat) : List Segment → List Block
  | [] => []
  | value args i :: ps => .steps (.ofNat next) (args.map .argument ++ [i]) :: stepsOf (next + 1) ps
  | function _ _ :: ps => stepsOf next ps

mutual

/-- The graph of a function whose body starts at `next`. -/
def GraphOf (next : Nat) : Segment → Graph → Prop
  | value _ _, _ => False
  | function params body, g => g.first = .ofNat next ∧ g.params = params ∧
    ∃ fs, FunctionsOf (next + params.toNat) (next + params.toNat + functions body) body fs ∧
      g.blocks = fs ++ stepsOf (next + params.toNat + functions body) body

/-- The blocks of the functions among segments, with the numbers from `id` on; values have the
numbers from `next` on. -/
def FunctionsOf (id next : Nat) : List Segment → List Block → Prop
  | [], bs => bs = []
  | value _ _ :: ps, bs => FunctionsOf id (next + 1) ps bs
  | function params body :: ps, bs => ∃ g bs', bs = .function (.ofNat id) g :: bs' ∧
    GraphOf next (function params body) g ∧ FunctionsOf (id + 1) next ps bs'

end

theorem codes_append (ps qs : List Segment) : codes (ps ++ qs) = codes ps ++ codes qs := by
  induction ps with
  | nil => rfl
  | cons p ps ih => simp only [List.cons_append, codes, ih, List.append_assoc]

theorem functions_append (ps qs : List Segment) :
    functions (ps ++ qs) = functions ps + functions qs := by
  induction ps with
  | nil => simp [functions]
  | cons p ps ih =>
    cases p with
    | value => exact ih
    | function => simp only [List.cons_append, functions, ih, Nat.add_right_comm]

theorem values_append (ps qs : List Segment) : values (ps ++ qs) = values ps + values qs := by
  induction ps with
  | nil => simp [values]
  | cons p ps ih =>
    cases p with
    | value => simp only [List.cons_append, values, ih, Nat.add_right_comm]
    | function => exact ih

theorem allSound_append (next : Nat) (ps qs : List Segment) :
    AllSound next (ps ++ qs) ↔ AllSound next ps ∧ AllSound (next + values ps) qs := by
  induction ps generalizing next with
  | nil => simp [AllSound, values]
  | cons p ps ih =>
    have hv : next + values [p] + values ps = next + values (p :: ps) := by
      rw [Nat.add_assoc, ← values_append, List.singleton_append]
    rw [List.cons_append, AllSound, AllSound, ih, hv, and_assoc]

theorem length_eq (ps : List Segment) : ps.length = functions ps + values ps := by
  induction ps with
  | nil => rfl
  | cons p ps ih => cases p <;> simp only [List.length_cons, functions, values, ih] <;> omega

theorem length_stepsOf (next : Nat) (ps : List Segment) :
    (stepsOf next ps).length = values ps := by
  induction ps generalizing next with
  | nil => rfl
  | cons p ps ih => cases p <;> simp [stepsOf, values, ih]

theorem length_functionsOf {id next : Nat} {ps : List Segment} {fs : List Block}
    (h : FunctionsOf id next ps fs) : fs.length = functions ps := by
  induction ps generalizing id next fs with
  | nil =>
    rw [FunctionsOf] at h
    rw [h]
    rfl
  | cons p ps ih =>
    cases p with
    | value args i =>
      rw [FunctionsOf] at h
      exact ih h
    | function params body =>
      rw [FunctionsOf] at h
      obtain ⟨g, bs', rfl, -, hfs⟩ := h
      rw [List.length_cons, ih hfs, functions]

theorem stepsOf_append (next : Nat) (ps qs : List Segment) :
    stepsOf next (ps ++ qs) = stepsOf next ps ++ stepsOf (next + values ps) qs := by
  induction ps generalizing next with
  | nil => rfl
  | cons p ps ih =>
    cases p with
    | value args i =>
      simp only [List.cons_append, stepsOf, values, ih, Nat.add_assoc, Nat.add_comm 1]
    | function params body => exact ih next

theorem functionsOf_append {id next : Nat} {ps qs : List Segment} {fs gs : List Block}
    (h : FunctionsOf id next ps fs)
    (h' : FunctionsOf (id + functions ps) (next + values ps) qs gs) :
    FunctionsOf id next (ps ++ qs) (fs ++ gs) := by
  induction ps generalizing id next fs with
  | nil =>
    rw [FunctionsOf] at h
    rw [h]
    exact h'
  | cons p ps ih =>
    cases p with
    | value args i =>
      rw [FunctionsOf] at h
      rw [List.cons_append, FunctionsOf]
      refine ih h ?_
      rwa [values, Nat.add_comm (values ps), ← Nat.add_assoc] at h'
    | function params body =>
      rw [FunctionsOf] at h
      obtain ⟨g, bs', rfl, hg, hfs⟩ := h
      rw [List.cons_append, FunctionsOf]
      refine ⟨g, bs' ++ gs, rfl, hg, ih hfs ?_⟩
      rwa [functions, Nat.add_comm (functions ps), ← Nat.add_assoc] at h'

theorem countFunctions_arguments (k : Nat) (args : List ValueId) (rest : List Instruction) :
    countFunctions k (args.map Instruction.argument ++ rest) = countFunctions k rest := by
  induction args with
  | nil => rfl
  | cons a args ih => exact ih

theorem Produces.countFunctions_cons {args : List ValueId} {i : Instruction} (h : Produces args i)
    (k : Nat) (rest : List Instruction) : countFunctions k (i :: rest) = countFunctions k rest := by
  cases i with
  | call | constant | field | copy => rfl
  | argument | enter | leave => exact h.elim

mutual

theorem countFunctions_code {p : Segment} (h : p.Regular) (k : Nat) (rest : List Instruction) :
    countFunctions k (p.code ++ rest) =
      (if k = 0 then functions [p] else 0) + countFunctions k rest := by
  cases p with
  | value args i =>
    rw [Regular] at h
    rw [code, List.append_assoc, countFunctions_arguments, List.singleton_append,
      h.countFunctions_cons]
    simp [functions]
  | function params body =>
    rw [Regular] at h
    have hb := countFunctions_codes h (k + 1) ([.leave] ++ rest)
    rw [code, List.append_assoc, List.cons_append, countFunctions, hb]
    simp [functions, countFunctions]

theorem countFunctions_codes {ps : List Segment} (h : AllRegular ps) (k : Nat)
    (rest : List Instruction) : countFunctions k (codes ps ++ rest) =
      (if k = 0 then functions ps else 0) + countFunctions k rest := by
  cases ps with
  | nil => simp [codes, functions]
  | cons p ps =>
    rw [AllRegular] at h
    have hf : functions (p :: ps) = functions [p] + functions ps := functions_append [p] ps
    rw [codes, List.append_assoc, countFunctions_code h.1, countFunctions_codes h.2, hf]
    split <;> omega

end

theorem Produces.fits {args : List ValueId} {i : Instruction} (h : Produces args i) {next : Nat}
    (hn : next < 2 ^ 31) : i.Fits next := by
  cases i with
  | call | constant | field | copy => exact hn
  | argument | enter | leave => exact h.elim

mutual

/-- The instructions of a sound segment are settled. -/
theorem Sound.settled {next : Nat} (hn : next < 2 ^ 31) {p : Segment} (h : p.Sound next) :
    p.Regular ∧ ∀ x ∈ numbered next p, x.1.Settled x.2 := by
  cases p with
  | value args i =>
    rw [Sound] at h
    rw [Regular, numbered]
    refine ⟨h.1, fun x hx => ?_⟩
    obtain ⟨j, hj, rfl⟩ := List.mem_map.mp hx
    rw [List.mem_append, List.mem_map, List.mem_singleton] at hj
    rcases hj with ⟨a, ha, rfl⟩ | rfl
    · refine ⟨hn, fun id hid => h.2 id ?_⟩
      cases hid
      exact List.mem_append_left _ ha
    · exact ⟨h.1.fits hn, fun id hid => h.2 id (List.mem_append_right _ (Option.mem_toList.mpr hid))⟩
  | function params body =>
    rw [Sound] at h
    obtain ⟨hbody, hs⟩ := AllSound.settled h.2.1 h.2.2
    rw [Regular, numbered]
    refine ⟨hbody, fun x hx => ?_⟩
    rw [List.mem_append, List.mem_cons, List.mem_singleton] at hx
    rcases hx with (rfl | hx) | rfl
    · refine ⟨?_, fun id hid => by cases hid⟩
      show next + params.toNat < 2 ^ 31
      omega
    · exact hs x hx
    · exact ⟨trivial, fun id hid => by cases hid⟩

/-- The instructions of sound segments are settled. -/
theorem AllSound.settled {next : Nat} {ps : List Segment} (hn : next + values ps < 2 ^ 31)
    (h : AllSound next ps) : AllRegular ps ∧ ∀ x ∈ allNumbered next ps, x.1.Settled x.2 := by
  cases ps with
  | nil => exact ⟨trivial, by simp [allNumbered]⟩
  | cons p ps =>
    have hv : values (p :: ps) = values [p] + values ps := values_append [p] ps
    rw [AllSound] at h
    obtain ⟨hp, hs⟩ := Sound.settled (by omega) h.1
    obtain ⟨hps, hss⟩ := AllSound.settled (by omega) h.2
    rw [AllRegular, allNumbered]
    exact ⟨⟨hp, hps⟩, fun x hx => (List.mem_append.mp hx).elim (hs x) (hss x)⟩

end

end Segment

/-! ## Building -/

namespace Draft

theorem base_eq_ofNat {d : Draft} {first : Nat} (hf : d.first = .ofNat first) :
    d.base = .ofNat (first + d.params.toNat) := by
  have hp : d.params.toInt32 = Int32.ofNat d.params.toNat := by
    rw [← UInt32.toInt32_ofNat', UInt32.ofNat_toNat]
  rw [base, hf, hp, ← Int32.ofNat_add]

theorem toInt_ofNat {n : Nat} (h : n < 2 ^ 31) : (Int32.ofNat n).toInt = n :=
  Int32.toInt_ofNat_of_lt h

/-- The numbers of a draft start at `n`, and the next value has the number `next`. -/
structure At (d : Draft) (n next : Nat) : Prop where
  first : d.first = .ofNat n
  next : next = n + d.params.toNat + d.nextIndex

theorem At.nextId {d : Draft} {first next : Nat} (h : d.At first next) :
    d.nextId = .ofNat next := by
  rw [Draft.nextId, base_eq_ofNat h.first, ← Int32.ofNat_add, h.next]

/-- The numbers up to the next one are in range. -/
theorem At.sums {d : Draft} {n next : Nat} (h : d.At n next) (hn : next < 2 ^ 31) {k : Nat}
    (hk : k ≤ d.nextIndex) : Sums d.base k := by
  have hnext := h.next
  rw [Sums, base_eq_ofNat h.first, ← Int32.ofNat_add, toInt_ofNat (by omega), toInt_ofNat (by omega),
    toInt_ofNat (by omega)]
  exact Int.natCast_add ..

/-- There is a number for the next value if it fits. -/
theorem At.takeValue {d : Draft} {n next : Nat} (h : d.At n next) (hn : next < 2 ^ 31)
    (is : List Instruction) : d.takeValue is = .ok (d.addValue is) :=
  takeValue_eq_ok.mpr ⟨rfl, h.sums hn (Nat.le_refl _)⟩

/-- There is room for a function if its numbers fit. -/
theorem At.hasRoom {d : Draft} {n next : Nat} (h : d.At n next) {params : UInt32}
    (hp : next + params.toNat < 2 ^ 31) (hf : d.functions.size ≤ d.nextIndex) : d.HasRoom params := by
  have hn : next < 2 ^ 31 := by omega
  refine ⟨h.sums hn hf, h.sums hn (Nat.le_refl _), ?_⟩
  have hparams : params.toInt32 = Int32.ofNat params.toNat := by
    rw [← UInt32.toInt32_ofNat', UInt32.ofNat_toNat]
  rw [h.nextId, hparams, ← Int32.ofNat_add, toInt_ofNat hp, toInt_ofNat hn, toInt_ofNat (by omega)]
  exact Int.natCast_add ..

theorem At.of_same {d d' : Draft} {first next : Nat} (h : d.At first next) (hl : SameLevel d d') :
    d'.At first next :=
  ⟨hl.first.trans h.first, by rw [hl.params, hl.nextIndex, h.next]⟩

theorem At.toInt_base {d : Draft} {n next : Nat} (h : d.At n next) (hn : next < 2 ^ 31) :
    d.base.toInt = n + d.params.toNat := by
  rw [base_eq_ofNat h.first, toInt_ofNat (by have := h.next; omega)]
  rfl

/-- A value of this level or a later one comes behind the parameters. -/
theorem base_le {d : Draft} {id : ValueId} (ha : ¬ Ambient d.first d.base id)
    (ho : ¬ id < d.first) : d.base.toInt ≤ id.toInt :=
  Int32.le_iff_toInt_le.mp (Int32.not_lt.mp fun hlt => ha (.inr ⟨Int32.not_lt.mp ho, hlt⟩))

/-- Such a value is less than `2 ^ 31` places behind them. -/
theorem At.toInt_sub {d : Draft} {n next : Nat} (h : d.At n next) (hn : next < 2 ^ 31) {id : ValueId}
    (ha : ¬ Ambient d.first d.base id) (ho : ¬ id < d.first) :
    (id - d.base).toInt = id.toInt - d.base.toInt := by
  have hbase := h.toInt_base hn
  have hle := base_le ha ho
  have hlt := id.toInt_lt
  rw [Int32.toInt_sub]
  exact Int.bmod_eq_of_le (by omega) (by omega)

/-- A value with a number below the next one may be read. -/
theorem origin_ok {d : Draft} {first next : Nat} (h : d.At first next) (hn : next < 2 ^ 31)
    {id : ValueId} (hid : id.toInt < next) (position : Nat) :
    ∃ o, d.origin id position = .ok o := by
  unfold origin
  split
  case isTrue => exact ⟨_, rfl⟩
  case isFalse ha =>
    split
    case isTrue => exact ⟨_, rfl⟩
    case isFalse ho =>
      have hsub := h.toInt_sub hn ha ho
      have hbase := h.toInt_base hn
      have hle := base_le ha ho
      have hnext := h.next
      refine ⟨.block (id - d.base).toInt.toNat, ?_⟩
      rw [ValueId.minus_eq_ok.mpr ⟨rfl, hsub⟩]
      show (if 0 ≤ (id - d.base).toInt ∧ (id - d.base).toInt < d.nextIndex then _ else _) = _
      rw [if_pos (by omega)]

theorem depend_ok {d : Draft} {first next : Nat} (h : d.At first next) (hn : next < 2 ^ 31)
    {id : ValueId} (hid : id.toInt < next) (dst position : Nat) :
    ∃ d', d.depend id dst position = .ok d' := by
  obtain ⟨o, ho⟩ := origin_ok h hn hid position
  unfold depend
  rw [ho]
  cases o with
  | ambient => exact ⟨_, rfl⟩
  | outer => exact ⟨_, rfl⟩
  | block src =>
    by_cases h₁ : src = dst
    · exact ⟨d, by simp only [bind, Except.bind, h₁, if_true]; rfl⟩
    · by_cases h₂ : dst < d.functionCount
      · by_cases h₃ : src < d.functionCount
        · exact ⟨_, by simp only [bind, Except.bind, h₁, h₂, h₃, if_true, if_false]; rfl⟩
        · exact ⟨_, by simp only [bind, Except.bind, h₁, h₂, h₃, if_true, if_false]; rfl⟩
      · exact ⟨_, by simp only [bind, Except.bind, h₁, h₂, if_false]; rfl⟩

theorem dependAll_ok {d : Draft} {R : Nat → ValueId → Prop} (hr : d.Reflects R) {n next : Nat}
    (h : d.At n next) (hn : next < 2 ^ 31) {dst : Nat}
    (hdst : dst < d.functionCount ∨ dst = d.nextIndex) (position : Nat) {ids : List ValueId}
    (hids : ∀ id ∈ ids, id.toInt < next) : ∃ d', d.dependAll dst position ids = .ok d' := by
  induction ids generalizing d R with
  | nil => exact ⟨d, rfl⟩
  | cons id ids ih =>
    obtain ⟨d₁, h₁⟩ := depend_ok h hn (hids id List.mem_cons_self) dst position
    obtain ⟨hr₁, hl⟩ := hr.depend hdst h₁
    obtain ⟨d', h'⟩ := ih hr₁ (h.of_same hl) (by rwa [hl.functionCount, hl.nextIndex])
      fun id hid => hids id (List.mem_cons_of_mem _ hid)
    refine ⟨d', ?_⟩
    rw [dependAll, h₁]
    exact h'

/-- A later draft of a level, with further blocks. -/
structure Gains (d d' : Draft) (fs vs : List Block) : Prop where
  sound : d'.Sound
  first : d'.first = d.first
  params : d'.params = d.params
  functionCount : d'.functionCount = d.functionCount
  functions : d'.functions.toList = d.functions.toList ++ fs
  values : d'.values.toList = d.values.toList ++ vs

namespace Gains

variable {d d' d'' : Draft} {fs vs fs' vs' : List Block}

theorem refl (hd : d.Sound) : Gains d d [] [] := ⟨hd, rfl, rfl, rfl, by simp, by simp⟩

theorem trans (h : Gains d d' fs vs) (h' : Gains d' d'' fs' vs') :
    Gains d d'' (fs ++ fs') (vs ++ vs') :=
  ⟨h'.sound, h'.first.trans h.first, h'.params.trans h.params,
    h'.functionCount.trans h.functionCount,
    by rw [h'.functions, h.functions, List.append_assoc],
    by rw [h'.values, h.values, List.append_assoc]⟩

theorem nextIndex (h : Gains d d' fs vs) : d'.nextIndex = d.nextIndex + vs.length := by
  have hv := congrArg List.length h.values
  rw [List.length_append, Array.length_toList, Array.length_toList] at hv
  rw [Draft.nextIndex, Draft.nextIndex, h.functionCount, hv, Nat.add_assoc]

theorem at_next (h : Gains d d' fs vs) {n next : Nat} (hd : d.At n next) :
    d'.At n (next + vs.length) :=
  ⟨h.first.trans hd.first, by rw [hd.next, h.params, h.nextIndex, Nat.add_assoc]⟩

theorem size_functions (h : Gains d d' fs vs) : d'.functions.size = d.functions.size + fs.length := by
  have hf := congrArg List.length h.functions
  simpa using hf

end Gains

/-- Arguments are taken one by one. -/
theorem buildFrom_arguments {next n : Nat} (hn : next < 2 ^ 31) {args : List ValueId}
    (hargs : ∀ id ∈ args, id.toInt < next) {d : Draft} (hd : d.Sound) (ha : d.At n next)
    (position : Nat) (around : List Draft) (rest : List Instruction) :
    ∃ d' position', Graph.buildFrom position d around (args.map .argument ++ rest) =
        Graph.buildFrom position' d' around rest ∧ Gains d d' [] [] ∧
      d'.pending.toList = d.pending.toList ++ args.map .argument := by
  induction args generalizing d position with
  | nil => exact ⟨d, position, rfl, .refl hd, by simp⟩
  | cons a args ih =>
    obtain ⟨d₁, h₁⟩ := depend_ok ha hn (hargs a List.mem_cons_self) d.nextIndex position
    obtain ⟨-, hl⟩ := hd.reflects.depend (.inr rfl) h₁
    have hg : Gains d (d₁.withArgument a) [] [] :=
      ⟨hd.argument h₁, hl.first, hl.params, hl.functionCount, by simp [withArgument, hl.functions],
        by simp [withArgument, hl.values]⟩
    obtain ⟨d', position', he, hg', hp⟩ := ih (fun id hid => hargs id (List.mem_cons_of_mem _ hid))
      hg.sound (hg.at_next ha) (position + 1)
    refine ⟨d', position', ?_, hg.trans hg', ?_⟩
    · rw [List.map_cons, List.cons_append, Graph.buildFrom, h₁]
      exact he
    · rw [hp]
      simp [withArgument, hl.pending]

/-- The instructions of a value become a block. -/
theorem buildFrom_value_segment {next n : Nat} {args : List ValueId} {i : Instruction}
    (hi : Segment.Produces args i) (hs : ∀ x ∈ (Segment.value args i).numbered next, x.1.Settled x.2)
    {d : Draft} (hd : d.Sound) (ha : d.At n next) (hp : d.pending = #[]) (position : Nat)
    (around : List Draft) (rest : List Instruction) :
    ∃ d' position', Graph.buildFrom position d around (args.map .argument ++ [i] ++ rest) =
        Graph.buildFrom position' d' around rest ∧
      Gains d d' [] [.steps (.ofNat next) (args.map .argument ++ [i])] ∧ d'.pending = #[] := by
  rw [Segment.numbered, List.forall_mem_map, List.forall_mem_append, List.forall_mem_map,
    List.forall_mem_singleton] at hs
  obtain ⟨hargs, hlast⟩ := hs
  have hn : next < 2 ^ 31 := hlast.1.lt (by rintro rfl; exact hi)
  -- a call takes the arguments before it, any other instruction has none
  by_cases hc : ∃ id, i = .call id
  · obtain ⟨id, rfl⟩ := hc
    obtain ⟨d₀, position₀, he, hg, hp₀⟩ := buildFrom_arguments hn
      (fun id hid => (hargs id hid).2 id rfl) hd ha position around ([.call id] ++ rest)
    have ha₀ := hg.at_next ha
    obtain ⟨d₁, h₁⟩ := depend_ok ha₀ hn (hlast.2 id rfl) d₀.nextIndex position₀
    obtain ⟨hr, hl⟩ := hg.sound.reflects.depend (.inr rfl) h₁
    have his : (d₁.pending.push (.call id)).toList = args.map Instruction.argument ++ [.call id] := by
      simp [hl.pending, hp₀, hp]
    have hv : (d₁.addValue (d₁.pending.push (.call id)).toList).Sound := hg.sound.addValue hl hr (by
      simp [hl.pending, Instruction.operand?])
    refine ⟨d₁.addValue (d₁.pending.push (.call id)).toList, position₀ + 1, ?_,
      ⟨hv, hl.first.trans hg.first, hl.params.trans hg.params,
        hl.functionCount.trans hg.functionCount, ?_, ?_⟩, rfl⟩
    · rw [List.append_assoc, he, List.singleton_append, Graph.buildFrom, h₁]
      show (d₁.takeValue (d₁.pending.push (.call id)).toList >>= fun d =>
        Graph.buildFrom (position₀ + 1) d around rest) = _
      rw [(ha₀.of_same hl).takeValue hn]
      rfl
    · show d₁.functions.toList = _
      rw [hl.functions, hg.functions]
    · show (d₁.values.push _).toList = _
      have hid : d₁.nextId = .ofNat next := ((hg.at_next ha).of_same hl).nextId
      rw [Array.toList_push, hl.values, hg.values, his, hid, List.append_nil]
  · have hv : (∃ c, i = .constant c) ∨ (∃ v n f, i = .field v n f) ∨ ∃ v, i = .copy v := by
      cases i with
      | call id => exact absurd ⟨id, rfl⟩ hc
      | constant c => exact .inl ⟨c, rfl⟩
      | field v n f => exact .inr (.inl ⟨v, n, f, rfl⟩)
      | copy v => exact .inr (.inr ⟨v, rfl⟩)
      | argument | enter | leave => exact hi.elim
    have hnil : args = [] := by
      rcases hv with ⟨c, rfl⟩ | ⟨v, n, f, rfl⟩ | ⟨v, rfl⟩ <;> exact hi
    subst hnil
    have hops : ∀ id ∈ i.operand?.toList, id.toInt < next :=
      fun id hid => hlast.2 id (Option.mem_toList.mp hid)
    obtain ⟨d₁, h₁⟩ := dependAll_ok hd.reflects ha hn (.inr rfl) position hops
    obtain ⟨hr, hl⟩ := hd.reflects.dependAll (.inr rfl) h₁
    have hs : (d₁.addValue [i]).Sound := hd.addValue hl hr (by
      simp only [hp, List.filterMap_cons, List.filterMap_nil, List.nil_append]
      cases i.operand? <;> rfl)
    refine ⟨d₁.addValue [i], position + 1, ?_,
      ⟨hs, hl.first, hl.params, hl.functionCount, ?_, ?_⟩, rfl⟩
    · rw [List.map_nil, List.nil_append, List.singleton_append, buildFrom_cons_value hv, h₁,
        if_neg (by simp [hp])]
      show (d₁.takeValue [i] >>= fun d => Graph.buildFrom (position + 1) d around rest) = _
      rw [(ha.of_same hl).takeValue hn]
      rfl
    · show d₁.functions.toList = _
      rw [hl.functions, List.append_nil]
    · show (d₁.values.push _).toList = _
      have hid : d₁.nextId = .ofNat next := (ha.of_same hl).nextId
      rw [Array.toList_push, hl.values, hid]
      rfl

/-- A draft before a function body is taken. -/
theorem at_start (next : Nat) (params : UInt32) (position : Nat) (rest : List Instruction) :
    (start (.ofNat next) params position rest).At next
      (next + params.toNat + countFunctions 0 rest) :=
  ⟨rfl, rfl⟩

theorem finish_params {d : Draft} (h : d.Sound) : d.finish.params = d.params :=
  (SameLevel.propagate h.reflects).params

/-- A function block is all that a level gains with it. -/
theorem gains_addFunction {d d₁ b : Draft} (hd : d.Sound) (hp : d.pending = #[])
    (hi : d.functions.size < d.functionCount) (hb : b.Sound) (hbp : b.pending = #[])
    (hbc : b.functions.size = b.functionCount) (hbf : b.first = d.nextId)
    (hadd : d.addFunction b = .ok d₁) : d₁.pending = #[] ∧
      Gains d d₁ [.function (d.base + Int32.ofNat d.functions.size) b.finish] [] := by
  obtain ⟨hs, -, hfc, hp', hf, hpar⟩ := hd.addFunction hp hi hb hbp hbc hbf hadd
  obtain ⟨d₀, h₀, rfl⟩ := addFunction_eq_ok hadd
  obtain ⟨-, hl⟩ := hd.reflects.dependAll (.inl hi) h₀
  refine ⟨hp', hs, hf, hpar, hfc, ?_, ?_⟩
  · show (d₀.functions.push _).toList = _
    rw [Array.toList_push, hl.functions]
  · show d₀.values.toList = _
    rw [hl.values, List.append_nil]

/-- A function whose body has been taken becomes a block. -/
theorem addFunction_ok {n next : Nat} (hn : next < 2 ^ 31) {d b : Draft} (hd : d.Sound)
    (ha : d.At n next) (hi : d.functions.size < d.functionCount)
    (hb : b.Sound) (hbp : b.pending = #[]) (hbc : b.functions.size = b.functionCount)
    (hbf : b.first = d.nextId) : ∃ d', d.addFunction b = .ok d' := by
  have hids : ∀ id ∈ b.escaped.toList, id.toInt < next := by
    intro id hid
    have hlt := ((hb.mem_escaped hbp hbc id).mp (Array.mem_toList_iff.mp hid)).2.1
    rw [hbf, ha.nextId, Int32.lt_iff_toInt_lt, toInt_ofNat hn] at hlt
    exact hlt
  obtain ⟨d₀, h₀⟩ := dependAll_ok hd.reflects ha hn (.inl hi) b.openedAt hids
  refine ⟨d₀.withFunction (.function (d.base + Int32.ofNat d.functions.size) b.finish), ?_⟩
  unfold addFunction
  dsimp only
  rw [h₀]
  rfl

/-- The graph of a function body that has been taken as a whole. -/
theorem graphOf_finish {b : Draft} {next : Nat} {params : UInt32} {position : Nat}
    {rest : List Instruction} {body : List Segment} {fs : List Block}
    (hg : Gains (.start (.ofNat next) params position rest) b fs
      (Segment.stepsOf (next + params.toNat + Segment.functions body) body))
    (hfs : Segment.FunctionsOf (next + params.toNat)
      (next + params.toNat + Segment.functions body) body fs) :
    Segment.GraphOf next (.function params body) b.finish := by
  rw [Segment.GraphOf]
  refine ⟨?_, ?_, fs, hfs, ?_⟩
  · rw [finish_first hg.sound, hg.first]
    rfl
  · rw [finish_params hg.sound, hg.params]
    rfl
  · rw [finish_blocks hg.sound, Array.toList_append, hg.functions, hg.values]
    rfl

mutual

/-- The instructions of a segment become a block. -/
theorem buildFrom_code {n next : Nat} (p : Segment) (hr : p.Regular)
    (hs : ∀ x ∈ p.numbered next, x.1.Settled x.2) {d : Draft} (hd : d.Sound) (ha : d.At n next)
    (hp : d.pending = #[]) (hf : d.functions.size + Segment.functions [p] ≤ d.functionCount)
    (position : Nat) (around : List Draft) (rest : List Instruction) :
    ∃ d' position' fs, Graph.buildFrom position d around (p.code ++ rest) =
        Graph.buildFrom position' d' around rest ∧ Gains d d' fs (Segment.stepsOf next [p]) ∧
      Segment.FunctionsOf (n + d.params.toNat + d.functions.size) next [p] fs ∧ d'.pending = #[] := by
  cases p with
  | value args i =>
    rw [Segment.Regular] at hr
    obtain ⟨d', position', he, hg, hp'⟩ := buildFrom_value_segment hr hs hd ha hp position around rest
    refine ⟨d', position', [], ?_, hg, ?_, hp'⟩
    · rw [Segment.code]
      exact he
    · rw [Segment.FunctionsOf, Segment.FunctionsOf]
  | function params body =>
    rw [Segment.Regular] at hr
    rw [Segment.numbered, List.cons_append, List.forall_mem_cons, List.forall_mem_append] at hs
    obtain ⟨⟨hroom, -⟩, hbody, -⟩ := hs
    have hn : next < 2 ^ 31 := hroom.lt (by simp)
    have hcount : countFunctions 0 (Segment.codes body ++ .leave :: rest) =
        Segment.functions body := by
      rw [Segment.countFunctions_codes hr]
      simp [countFunctions]
    have hb₀ := at_start next params position (Segment.codes body ++ .leave :: rest)
    rw [hcount] at hb₀
    obtain ⟨b, position₁, fs, he, hg, hfs, hbp⟩ := buildFrom_codes hr hbody
      (sound_start ..) hb₀ rfl (by show 0 + _ ≤ countFunctions 0 _; omega) (position + 1)
      (d :: around) (.leave :: rest)
    have hbc : b.functions.size = b.functionCount := by
      rw [hg.size_functions, hg.functionCount, Segment.length_functionsOf hfs]
      show 0 + _ = countFunctions 0 _
      omega
    have hlt : d.functions.size < d.functionCount := by
      simp only [Segment.functions] at hf
      omega
    have hbf : b.first = d.nextId := hg.first.trans ha.nextId.symm
    obtain ⟨d', hadd⟩ := addFunction_ok hn hd ha hlt hg.sound hbp hbc hbf
    obtain ⟨hp', hg'⟩ := gains_addFunction hd hp hlt hg.sound hbp hbc hbf hadd
    refine ⟨d', position₁ + 1, _, ?_, hg', ?_, hp'⟩
    · have hroom := ha.hasRoom hroom (hlt.le.trans (Nat.le_add_right ..))
      rw [Segment.code, List.append_assoc, List.cons_append, Graph.buildFrom, if_neg (by simp [hp]),
        enter_eq_ok.mpr ⟨rfl, hroom⟩, List.singleton_append, ha.nextId]
      refine he.trans ?_
      rw [Graph.buildFrom, if_neg (by simp [hbp]), hadd]
      rfl
    · rw [Segment.FunctionsOf]
      refine ⟨b.finish, [], ?_, graphOf_finish hg hfs, by rw [Segment.FunctionsOf]⟩
      rw [base_eq_ofNat ha.first, ← Int32.ofNat_add]

/-- The instructions of segments become blocks, in order. -/
theorem buildFrom_codes {n next : Nat} {ps : List Segment} (hr : Segment.AllRegular ps)
    (hs : ∀ x ∈ Segment.allNumbered next ps, x.1.Settled x.2) {d : Draft} (hd : d.Sound)
    (ha : d.At n next) (hp : d.pending = #[])
    (hf : d.functions.size + Segment.functions ps ≤ d.functionCount)
    (position : Nat) (around : List Draft) (rest : List Instruction) :
    ∃ d' position' fs, Graph.buildFrom position d around (Segment.codes ps ++ rest) =
        Graph.buildFrom position' d' around rest ∧ Gains d d' fs (Segment.stepsOf next ps) ∧
      Segment.FunctionsOf (n + d.params.toNat + d.functions.size) next ps fs ∧ d'.pending = #[] := by
  cases ps with
  | nil => exact ⟨d, position, [], rfl, .refl hd, by rw [Segment.FunctionsOf], hp⟩
  | cons p ps =>
    have hfun : Segment.functions (p :: ps) = Segment.functions [p] + Segment.functions ps :=
      Segment.functions_append [p] ps
    rw [Segment.AllRegular] at hr
    rw [Segment.allNumbered, List.forall_mem_append] at hs
    obtain ⟨d₁, position₁, fs₁, he₁, hg₁, hfs₁, hp₁⟩ := buildFrom_code p hr.1 hs.1 hd ha hp
      (by omega) position around (Segment.codes ps ++ rest)
    have ha₁ := hg₁.at_next ha
    rw [Segment.length_stepsOf] at ha₁
    have hsize := hg₁.size_functions
    rw [Segment.length_functionsOf hfs₁] at hsize
    obtain ⟨d', position', fs, he, hg, hfs, hp'⟩ := buildFrom_codes hr.2 hs.2 hg₁.sound ha₁ hp₁
      (by rw [hg₁.functionCount]; omega) position₁ around rest
    refine ⟨d', position', fs₁ ++ fs, ?_, ?_, ?_, hp'⟩
    · rw [Segment.codes, List.append_assoc, he₁, he]
    · rw [← List.singleton_append, Segment.stepsOf_append]
      exact hg₁.trans hg
    · refine Segment.functionsOf_append hfs₁ ?_
      rw [hg₁.params, hsize, ← Nat.add_assoc] at hfs
      exact hfs

end

end Draft

/-- The graph of segments whose instructions are settled. -/
theorem Graph.build_of_settled {ps : List Segment} (hr : Segment.AllRegular ps)
    (hs : ∀ x ∈ Segment.allNumbered (Segment.functions ps) ps, x.1.Settled x.2) :
    ∃ g, Graph.build (Segment.codes ps) = .ok g ∧ Segment.GraphOf 0 (.function 0 ps) g := by
  have hcount : countFunctions 0 (Segment.codes ps) = Segment.functions ps := by
    have := Segment.countFunctions_codes hr 0 []
    simpa [countFunctions] using this
  have hzero : Segment.functions ps = 0 + (0 : UInt32).toNat + Segment.functions ps :=
    (Nat.zero_add _).symm
  rw [hzero] at hs
  have ha := Draft.at_start 0 0 0 (Segment.codes ps)
  rw [hcount] at ha
  obtain ⟨d', position', fs, he, hg, hfs, hp⟩ := Draft.buildFrom_codes hr hs
    (Draft.sound_start ..) ha rfl (by show 0 + _ ≤ countFunctions 0 _; omega) 0 [] []
  refine ⟨d'.finish, ?_, Draft.graphOf_finish hg hfs⟩
  rw [List.append_nil] at he
  rw [Graph.build]
  refine he.trans ?_
  rw [Graph.buildFrom, if_neg (by simp [hp]), if_neg (by simp)]

/-- **The graph of sound segments.** -/
theorem Graph.build_codes {ps : List Segment}
    (hfit : Segment.functions ps + Segment.values ps < 2 ^ 31)
    (hs : Segment.AllSound (Segment.functions ps) ps) :
    ∃ g, Graph.build (Segment.codes ps) = .ok g ∧ Segment.GraphOf 0 (.function 0 ps) g := by
  obtain ⟨hr, hsettled⟩ := hs.settled hfit
  exact Graph.build_of_settled hr hsettled

end Dataflow
