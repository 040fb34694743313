import Dataflow.Proofs.Graph.Streams

/-!
# Which instructions are well formed

Instructions are well formed if every function body that is opened is closed, arguments stand before
a call, and every instruction reads only values that its level or a level around it has by then. For
these, and only for these, there is a graph, and they can be read off it again: a function body
stands where its first number says.

* `Instructions.numbered`: instructions with the next number of their level;
* `Instructions.WellFormed`: what is asked of instructions;
* `Graph.flatten`: the instructions of a graph;
* **`Graph.build_exact`**: exactly well-formed instructions have a graph, and it keeps all of them.
-/

namespace Dataflow

namespace Instructions

/-- Inside `k` function bodies every body is closed by the end, and nothing else is. -/
def Balanced (k : Nat) : List Instruction → Prop
  | [] => k = 0
  | .enter _ :: is => Balanced (k + 1) is
  | .leave :: is => 0 < k ∧ Balanced (k - 1) is
  | .argument _ :: is | .call _ :: is | .constant _ :: is | .field .. :: is | .copy _ :: is =>
    Balanced k is

/-- Behind every argument there are only further ones up to a call. -/
def CallsFollow : List Instruction → Prop
  | [] => True
  | .argument _ :: is =>
    (∃ (args : List ValueId) (callee : ValueId) (rest : List Instruction),
      is = args.map .argument ++ .call callee :: rest) ∧ CallsFollow is
  | .enter _ :: is | .leave :: is | .call _ :: is | .constant _ :: is | .field .. :: is
  | .copy _ :: is => CallsFollow is

/-- Instructions of a level whose next value has the number `next`, each with the next number of its
level; `around` has the next numbers of the levels around it. -/
def numberedFrom (next : Nat) (around : List Nat) : List Instruction → List (Instruction × Nat)
  | [] => []
  | .enter params :: is => (.enter params, next) ::
      numberedFrom (next + params.toNat + countFunctions 0 is) (next :: around) is
  | .leave :: is => (.leave, next) ::
    match around with
    | [] => []
    | outer :: around => numberedFrom outer around is
  | .argument id :: is => (.argument id, next) :: numberedFrom next around is
  | i :: is => (i, next) :: numberedFrom (next + 1) around is

/-- Instructions, each with the next number of its level. -/
def numbered (is : List Instruction) : List (Instruction × Nat) :=
  numberedFrom (countFunctions 0 is) [] is

/-- The numbers of all values fit. -/
def Fit (is : List Instruction) : Prop := ∀ x ∈ numbered is, x.1.Fits x.2

/-- What is asked of instructions. -/
structure WellFormed (is : List Instruction) : Prop where
  balanced : Balanced 0 is
  callsFollow : CallsFollow is
  /-- Only values that are there are read. -/
  readsBelow : ∀ x ∈ numbered is, ∀ id ∈ x.1.operand?, id.toInt < x.2

/-! ## Segments are well formed -/

section Segments

open Segment

theorem balanced_arguments (k : Nat) (args : List ValueId) (is : List Instruction) :
    Balanced k (args.map .argument ++ is) ↔ Balanced k is := by
  induction args with
  | nil => rfl
  | cons a args ih => exact ih

theorem numberedFrom_arguments (next : Nat) (around : List Nat) (args : List ValueId)
    (is : List Instruction) : numberedFrom next around (args.map .argument ++ is) =
      (args.map Instruction.argument).map (·, next) ++ numberedFrom next around is := by
  induction args with
  | nil => rfl
  | cons a args ih => exact congrArg _ ih

theorem callsFollow_value {args : List ValueId} {i : Instruction} (hi : Produces args i)
    {rest : List Instruction} (h : CallsFollow rest) :
    CallsFollow (args.map .argument ++ i :: rest) := by
  induction args with
  | nil =>
    cases i with
    | call | constant | field | copy => exact h
    | argument | enter | leave => exact hi.elim
  | cons a args ih =>
    cases i with
    | call callee => exact ⟨⟨args, callee, rest, rfl⟩, ih trivial⟩
    | constant | field | copy => cases hi
    | argument | enter | leave => exact hi.elim

mutual

theorem balanced_code {p : Segment} (h : p.Regular) (k : Nat) (rest : List Instruction) :
    Balanced k (p.code ++ rest) ↔ Balanced k rest := by
  cases p with
  | value args i =>
    rw [Regular] at h
    rw [code, List.append_assoc, balanced_arguments]
    cases i with
    | call | constant | field | copy => rfl
    | argument | enter | leave => exact h.elim
  | function params body =>
    rw [Regular] at h
    rw [code, List.append_assoc]
    refine (balanced_codes h (k + 1) ([.leave] ++ rest)).trans ?_
    show 0 < k + 1 ∧ Balanced k rest ↔ _
    simp

theorem balanced_codes {ps : List Segment} (h : AllRegular ps) (k : Nat) (rest : List Instruction) :
    Balanced k (codes ps ++ rest) ↔ Balanced k rest := by
  cases ps with
  | nil => rfl
  | cons p ps =>
    rw [AllRegular] at h
    rw [codes, List.append_assoc, balanced_code h.1, balanced_codes h.2]

end

mutual

theorem callsFollow_code {p : Segment} (h : p.Regular) {rest : List Instruction}
    (hrest : CallsFollow rest) : CallsFollow (p.code ++ rest) := by
  cases p with
  | value args i =>
    rw [Regular] at h
    rw [code, List.append_assoc]
    exact callsFollow_value h hrest
  | function params body =>
    rw [Regular] at h
    rw [code, List.append_assoc]
    exact callsFollow_codes h (show CallsFollow ([.leave] ++ rest) from hrest)

theorem callsFollow_codes {ps : List Segment} (h : AllRegular ps) {rest : List Instruction}
    (hrest : CallsFollow rest) : CallsFollow (codes ps ++ rest) := by
  cases ps with
  | nil => exact hrest
  | cons p ps =>
    rw [AllRegular] at h
    rw [codes, List.append_assoc]
    exact callsFollow_code h.1 (callsFollow_codes h.2 hrest)

end

mutual

theorem numberedFrom_code {p : Segment} (h : p.Regular) (next : Nat) (around : List Nat)
    (rest : List Instruction) : numberedFrom next around (p.code ++ rest) =
      p.numbered next ++ numberedFrom (next + values [p]) around rest := by
  cases p with
  | value args i =>
    rw [Regular] at h
    rw [code, List.append_assoc, numberedFrom_arguments, Segment.numbered, List.map_append,
      List.append_assoc]
    refine congrArg _ ?_
    cases i with
    | call | constant | field | copy => rfl
    | argument | enter | leave => exact h.elim
  | function params body =>
    rw [Regular] at h
    have hbody := numberedFrom_codes h (next + params.toNat + functions body) (next :: around)
      ([.leave] ++ rest)
    have hcount : countFunctions 0 (codes body ++ ([.leave] ++ rest)) = functions body := by
      rw [countFunctions_codes h]
      rfl
    rw [code, List.append_assoc]
    show (Instruction.enter params, next) :: numberedFrom (next + params.toNat +
      countFunctions 0 (codes body ++ ([.leave] ++ rest))) _ (codes body ++ ([.leave] ++ rest)) = _
    rw [hcount, hbody, Segment.numbered, List.cons_append, List.append_assoc, List.cons_append]
    rfl

theorem numberedFrom_codes {ps : List Segment} (h : AllRegular ps) (next : Nat) (around : List Nat)
    (rest : List Instruction) : numberedFrom next around (codes ps ++ rest) =
      allNumbered next ps ++ numberedFrom (next + values ps) around rest := by
  cases ps with
  | nil => rfl
  | cons p ps =>
    have hv : next + values [p] + values ps = next + values (p :: ps) := by
      rw [Nat.add_assoc, ← values_append, List.singleton_append]
    rw [AllRegular] at h
    rw [codes, List.append_assoc, numberedFrom_code h.1, numberedFrom_codes h.2, allNumbered, hv,
      List.append_assoc]

end

theorem numbered_codes {ps : List Segment} (h : AllRegular ps) :
    numbered (codes ps) = allNumbered (functions ps) ps := by
  have hcount := countFunctions_codes h 0 []
  have hnumbered := numberedFrom_codes h (functions ps) [] []
  rw [List.append_nil] at hcount hnumbered
  rw [numbered, hcount]
  exact hnumbered.trans (List.append_nil _)

/-! ## Well-formed instructions fall into segments -/

/-- Instructions inside `k` function bodies begin with the segments of the innermost one. -/
def Splits (is : List Instruction) : Nat → Prop
  | 0 => ∃ ps, AllRegular ps ∧ is = codes ps
  | k + 1 => ∃ ps rest, AllRegular ps ∧ is = codes ps ++ .leave :: rest ∧ Balanced k rest ∧
      CallsFollow rest

theorem Splits.cons {is : List Instruction} {k : Nat} (h : Splits is k) {p : Segment}
    (hp : p.Regular) : Splits (p.code ++ is) k := by
  cases k with
  | zero =>
    obtain ⟨ps, hps, rfl⟩ := h
    exact ⟨p :: ps, by rw [AllRegular]; exact ⟨hp, hps⟩, by rw [codes]⟩
  | succ k =>
    obtain ⟨ps, rest, hps, rfl, hrest⟩ := h
    exact ⟨p :: ps, rest, by rw [AllRegular]; exact ⟨hp, hps⟩,
      by rw [codes, List.append_assoc], hrest⟩

theorem CallsFollow.of_arguments {args : List ValueId} {is : List Instruction}
    (h : CallsFollow (args.map .argument ++ is)) : CallsFollow is := by
  induction args with
  | nil => exact h
  | cons a args ih => exact ih h.2

theorem splits (is : List Instruction) (k : Nat) (hb : Balanced k is) (hc : CallsFollow is) :
    Splits is k := by
  induction hn : is.length using Nat.strongRecOn generalizing is k with
  | ind n ih =>
    subst hn
    have value {i : Instruction} {js : List Instruction} (he : is = i :: js) (hi : Produces [] i)
        (hb : Balanced k js) (hc : CallsFollow js) : Splits (i :: js) k := by
      have hjs := ih js.length (by rw [he]; exact Nat.lt_succ_self _) js k hb hc rfl
      exact hjs.cons (p := .value [] i) (by rwa [Regular])
    cases is with
    | nil =>
      cases (show k = 0 from hb)
      exact ⟨[], trivial, rfl⟩
    | cons i is =>
      cases i with
      | leave =>
        obtain ⟨hk, hb⟩ := hb
        obtain ⟨k, rfl⟩ := Nat.exists_eq_succ_of_ne_zero (Nat.ne_of_gt hk)
        exact ⟨[], is, trivial, rfl, hb, hc⟩
      | enter params =>
        obtain ⟨ps, rest, hps, rfl, hb', hc'⟩ := ih is.length (Nat.lt_succ_self _) is (k + 1) hb hc rfl
        have hrest := ih rest.length (by simp; omega) rest k hb' hc' rfl
        have := hrest.cons (p := .function params ps) (by rwa [Regular])
        rwa [code, List.append_assoc] at this
      | argument a =>
        obtain ⟨⟨args, callee, rest, rfl⟩, hc⟩ := hc
        have hb' : Balanced k rest :=
          (balanced_arguments k args (.call callee :: rest)).mp hb
        have hc' : CallsFollow rest := hc.of_arguments
        have hrest := ih rest.length (by simp; omega) rest k hb' hc' rfl
        have := hrest.cons (p := .value (a :: args) (.call callee)) (by rw [Regular]; trivial)
        rwa [code, List.append_assoc] at this
      | call id => exact value rfl trivial hb hc
      | constant c => exact value rfl rfl hb hc
      | field v n f => exact value rfl rfl hb hc
      | copy v => exact value rfl rfl hb hc

end Segments

end Instructions

/-! ## The instructions of a graph -/

/-- Pieces of code in the order of the numbers at which they stand; of two at the same number, those
among the first `n`, which are the functions, come first. -/
def inOrder (n : Nat) (pieces : List (Int × List Instruction)) : List Instruction :=
  (List.merge (pieces.take n) (pieces.drop n) fun a b => a.1 ≤ b.1).flatMap (·.2)

mutual

/-- The instructions of a block, with the number at which they stand: a value has that number, a
function body starts with it. -/
def Block.piece : Block → Int × List Instruction
  | .steps id instructions => (id.toInt, instructions)
  | .function _ ⟨first, params, blocks, _⟩ => (first.toInt, .enter params ::
      inOrder (blocks.takeWhile Block.isFunction).length (Block.pieces blocks) ++ [.leave])

/-- The instructions of blocks, with the numbers at which they stand. -/
def Block.pieces : List Block → List (Int × List Instruction)
  | [] => []
  | b :: bs => Block.piece b :: Block.pieces bs

end

/-- The instructions of a graph. -/
def Graph.flatten (g : Graph) : List Instruction := inOrder g.functionCount (Block.pieces g.blocks)

namespace Segment

theorem pieces_append (bs cs : List Block) :
    Block.pieces (bs ++ cs) = Block.pieces bs ++ Block.pieces cs := by
  induction bs with
  | nil => rfl
  | cons b bs ih => rw [List.cons_append, Block.pieces, ih, Block.pieces, List.cons_append]

theorem length_pieces (bs : List Block) : (Block.pieces bs).length = bs.length := by
  induction bs with
  | nil => rfl
  | cons b bs ih => rw [Block.pieces, List.length_cons, ih, List.length_cons]

theorem merge_cons_left {α : Type} {le : α → α → Bool} {x : α} {xs ys : List α}
    (h : ∀ y ∈ ys, le x y = true) : List.merge (x :: xs) ys le = x :: List.merge xs ys le := by
  cases ys with
  | nil => simp
  | cons y ys => exact List.cons_merge_cons_pos _ _ _ (h y List.mem_cons_self)

theorem merge_cons_right {α : Type} {le : α → α → Bool} {y : α} {xs ys : List α}
    (h : ∀ x ∈ xs, ¬ le x y = true) : List.merge xs (y :: ys) le = y :: List.merge xs ys le := by
  cases xs with
  | nil => simp
  | cons x xs => exact List.cons_merge_cons_neg _ _ _ (h x List.mem_cons_self)

theorem FunctionsOf.isFunction {id next : Nat} {ps : List Segment} {fs : List Block}
    (h : FunctionsOf id next ps fs) : ∀ b ∈ fs, b.isFunction = true := by
  induction ps generalizing id next fs with
  | nil =>
    rw [FunctionsOf] at h
    simp [h]
  | cons p ps ih =>
    cases p with
    | value args i =>
      rw [FunctionsOf] at h
      exact ih h
    | function params body =>
      rw [FunctionsOf] at h
      obtain ⟨g, fs, rfl, -, hfs⟩ := h
      exact List.forall_mem_cons.mpr ⟨rfl, ih hfs⟩

/-- The functions of a level that comes from segments are its first blocks. -/
theorem FunctionsOf.length_takeWhile {id next : Nat} {ps : List Segment} {fs : List Block}
    (h : FunctionsOf id next ps fs) (n : Nat) (qs : List Segment) :
    ((fs ++ stepsOf n qs).takeWhile Block.isFunction).length = fs.length := by
  have hsteps : (stepsOf n qs).takeWhile Block.isFunction = [] := by
    induction qs with
    | nil => rfl
    | cons q qs ih =>
      cases q with
      | value args i => rfl
      | function params body => exact ih
  rw [List.takeWhile_append_of_pos h.isFunction, hsteps, List.append_nil]

theorem Produces.lt_of_fits {args : List ValueId} {i : Instruction} (h : Produces args i) {next : Nat}
    (hfit : ∀ x ∈ (value args i).numbered next, x.1.Fits x.2) : next < 2 ^ 31 := by
  refine (hfit (i, next) (by rw [numbered]; simp)).lt ?_
  rintro rfl
  exact h

/-- Values stand at their numbers, which are counted upwards. -/
theorem le_of_mem_pieces_stepsOf {next : Nat} {ps : List Segment} (hr : AllRegular ps)
    (hfit : ∀ x ∈ allNumbered next ps, x.1.Fits x.2) :
    ∀ e ∈ Block.pieces (stepsOf next ps), (next : Int) ≤ e.1 := by
  induction ps generalizing next with
  | nil => simp [stepsOf, Block.pieces]
  | cons p ps ih =>
    rw [AllRegular] at hr
    rw [allNumbered, List.forall_mem_append] at hfit
    cases p with
    | value args i =>
      have hp := hr.1
      rw [Regular] at hp
      have hn := hp.lt_of_fits hfit.1
      rw [stepsOf, Block.pieces, Block.piece, Draft.toInt_ofNat hn]
      refine List.forall_mem_cons.mpr ⟨Int.le_refl _, fun e he => ?_⟩
      have := ih hr.2 hfit.2 e he
      omega
    | function params body => exact ih hr.2 hfit.2

/-- Functions stand at the numbers that are counted there. -/
theorem FunctionsOf.le_of_mem_pieces {id next : Nat} {ps : List Segment} {fs : List Block}
    (h : FunctionsOf id next ps fs) (hfit : ∀ x ∈ allNumbered next ps, x.1.Fits x.2) :
    ∀ e ∈ Block.pieces fs, (next : Int) ≤ e.1 := by
  induction ps generalizing id next fs with
  | nil =>
    rw [FunctionsOf] at h
    simp [h, Block.pieces]
  | cons p ps ih =>
    rw [allNumbered, List.forall_mem_append] at hfit
    cases p with
    | value args i =>
      rw [FunctionsOf] at h
      intro e he
      have := ih h hfit.2 e he
      omega
    | function params body =>
      rw [FunctionsOf] at h
      obtain ⟨⟨first, params', blocks, dependents⟩, fs, rfl, hg, hfs⟩ := h
      rw [numbered, List.cons_append, List.forall_mem_cons] at hfit
      rw [GraphOf] at hg
      obtain ⟨hfirst, -⟩ := hg
      dsimp only at hfirst
      rw [Block.pieces, Block.piece, hfirst, Draft.toInt_ofNat (hfit.1.1.lt (by simp))]
      exact List.forall_mem_cons.mpr ⟨Int.le_refl _, ih hfs hfit.2⟩

mutual

/-- The instructions of a function block are those of its segment. -/
theorem piece_eq_code {next : Nat} (params : UInt32) (body : List Segment) (hr : AllRegular body)
    (hfit : ∀ x ∈ (function params body).numbered next, x.1.Fits x.2) {g : Graph}
    (h : GraphOf next (function params body) g) (id : ValueId) :
    (Block.function id g).piece = ((next : Int), (function params body).code) := by
  rw [numbered, List.cons_append, List.forall_mem_cons, List.forall_mem_append] at hfit
  obtain ⟨hfits, hfit, -⟩ := hfit
  have hn : next < 2 ^ 31 := hfits.lt (by simp)
  rw [GraphOf] at h
  obtain ⟨hfirst, hparams, fs, hfs, hblocks⟩ := h
  have hbody := merge_pieces body hr hfit hfs
  obtain ⟨first, params', blocks, dependents⟩ := g
  dsimp only at hfirst hparams hblocks
  rw [Block.piece, code, hfirst, hparams, hblocks, Draft.toInt_ofNat hn, hfs.length_takeWhile,
    inOrder, pieces_append, ← length_pieces fs, List.take_left, List.drop_left, hbody]
termination_by sizeOf (function params body)

/-- The instructions of the blocks of segments are those of the segments. -/
theorem merge_pieces {id next : Nat} (ps : List Segment) (hr : AllRegular ps)
    (hfit : ∀ x ∈ allNumbered next ps, x.1.Fits x.2) {fs : List Block}
    (h : FunctionsOf id next ps fs) :
    (List.merge (Block.pieces fs) (Block.pieces (stepsOf next ps)) fun a b => a.1 ≤ b.1).flatMap
      (·.2) = codes ps := by
  cases ps with
  | nil =>
    rw [FunctionsOf] at h
    rw [h, Block.pieces, List.nil_merge]
    rfl
  | cons p ps =>
    rw [AllRegular] at hr
    rw [allNumbered, List.forall_mem_append] at hfit
    cases p with
    | value args i =>
      rw [FunctionsOf] at h
      have ih := merge_pieces ps hr.2 hfit.2 h
      have hp := hr.1
      rw [Regular] at hp
      -- all functions that are left stand behind the value
      have hle := h.le_of_mem_pieces hfit.2
      rw [stepsOf, Block.pieces, Block.piece, Draft.toInt_ofNat (hp.lt_of_fits hfit.1),
        merge_cons_right fun x hx => ?_]
      · rw [List.flatMap_cons, codes, code]
        exact congrArg _ ih
      · have := hle x hx
        rw [decide_eq_true_iff]
        omega
    | function params body =>
      rw [FunctionsOf] at h
      obtain ⟨g, fs, rfl, hg, hfs⟩ := h
      have hp := hr.1
      rw [Regular] at hp
      have ih := merge_pieces ps hr.2 hfit.2 hfs
      have hpiece := piece_eq_code params body hp hfit.1 hg (.ofNat id)
      -- all values that are left stand behind the function
      have hle := le_of_mem_pieces_stepsOf hr.2 hfit.2
      rw [stepsOf, Block.pieces, hpiece, merge_cons_left fun y hy => ?_]
      · rw [List.flatMap_cons, codes]
        exact congrArg _ ih
      · have := hle y hy
        rw [decide_eq_true_iff]
        exact this
termination_by sizeOf ps

end

end Segment

/-- The instructions of the graph of segments are those of the segments. -/
theorem Graph.flatten_eq_codes {ps : List Segment} {g : Graph} (hr : Segment.AllRegular ps)
    (hfit : ∀ x ∈ Segment.allNumbered (Segment.functions ps) ps, x.1.Fits x.2)
    (h : Segment.GraphOf 0 (.function 0 ps) g) : g.flatten = Segment.codes ps := by
  rw [Segment.GraphOf] at h
  obtain ⟨-, -, fs, hfs, hblocks⟩ := h
  have hzero : 0 + (0 : UInt32).toNat + Segment.functions ps = Segment.functions ps := Nat.zero_add _
  rw [hzero] at hfs hblocks
  rw [flatten, functionCount, hblocks, hfs.length_takeWhile, inOrder, Segment.pieces_append,
    ← Segment.length_pieces fs, List.take_left, List.drop_left]
  exact Segment.merge_pieces ps hr hfit hfs

/-- A block that is no function holds a value: the arguments of one instruction and that
instruction. -/
theorem Segment.Lays.steps {ps : List Segment} {l : Graph} (h : Segment.Lays ps l) {id : ValueId}
    {is : List Instruction} (hb : .steps id is ∈ l.blocks) :
    ∃ args i, .value args i ∈ ps ∧ Segment.Produces args i ∧ is = args.map .argument ++ [i] := by
  obtain ⟨j, hj⟩ := List.mem_iff_getElem?.mp hb
  have hlt : j < l.blocks.length := (List.getElem?_eq_some_iff.mp hj).1
  rw [h.length] at hlt
  by_cases hf : j < Segment.functions ps
  · obtain ⟨q, params, body, hq, hn⟩ := Segment.exists_function hf
    obtain ⟨id', g, hg, -⟩ := h.function hq
    rw [Segment.index_function hq, hn, hj] at hg
    cases hg
  · obtain ⟨p, args, i, hp, hn⟩ : ∃ p args i, ps[p]? = some (.value args i) ∧
        Segment.values (ps.take p) = j - Segment.functions ps := Segment.exists_value (by omega)
    obtain ⟨hproduces, id', hblock⟩ := h.value hp
    rw [Segment.index_value hp, hn, Nat.add_sub_cancel' (Nat.not_lt.mp hf), hj] at hblock
    cases hblock
    exact ⟨args, i, List.mem_of_getElem? hp, hproduces, rfl⟩

/-! ## Which instruction is at fault -/

namespace Draft

/-- Where the next number fits, a read fails only because it comes too early. -/
theorem depend_error {d : Draft} {n next : Nat} (ha : d.At n next) (hn : next < 2 ^ 31)
    {id : ValueId} {dst position : Nat} {e : GraphError}
    (h : d.depend id dst position = .error e) : e = .tooEarly position id := by
  unfold depend at h
  cases ho : d.origin id position with
  | ok o =>
    rw [ho] at h
    cases o with
    | ambient | outer => cases h
    | block src =>
      dsimp only [bind, Except.bind] at h
      split at h
      · cases h
      · split at h
        · split at h <;> cases h
        · cases h
  | error e' =>
    rw [ho] at h
    cases h
    unfold origin at ho
    split at ho
    · cases ho
    · rename_i hambient
      split at ho
      · cases ho
      · rename_i houter
        rw [ValueId.minus_eq_ok.mpr ⟨rfl, ha.toInt_sub hn hambient houter⟩] at ho
        change (if 0 ≤ (id - d.base).toInt ∧ (id - d.base).toInt < d.nextIndex then _ else _) = _
          at ho
        split at ho
        · cases ho
        · cases ho
          rfl

theorem dependAll_error {d : Draft} {R : Nat → ValueId → Prop} (hr : d.Reflects R) {n next : Nat}
    (ha : d.At n next) (hn : next < 2 ^ 31) {ids : List ValueId} {dst position : Nat}
    (hdst : dst < d.functionCount ∨ dst = d.nextIndex) {e : GraphError}
    (h : d.dependAll dst position ids = .error e) : ∃ id ∈ ids, e = .tooEarly position id := by
  induction ids generalizing d R with
  | nil => cases h
  | cons id ids ih =>
    rw [dependAll] at h
    cases h₁ : d.depend id dst position with
    | error e' =>
      rw [h₁] at h
      cases h
      exact ⟨id, List.mem_cons_self, depend_error ha hn h₁⟩
    | ok d₁ =>
      rw [h₁] at h
      obtain ⟨hr₁, hl⟩ := hr.depend hdst h₁
      obtain ⟨id', hid, he⟩ := ih hr₁ (ha.of_same hl) (by rwa [hl.functionCount, hl.nextIndex]) h
      exact ⟨id', List.mem_cons_of_mem _ hid, he⟩

/-- The drafts around one that starts at `first`, with their next numbers, while `depth` bodies of
the outermost one are open. -/
def Around (first : ValueId) (depth : Nat) (is : List Instruction) : List Draft → List Nat → Prop
  | [], [] => True
  | d :: around, next :: nexts => d.Sound ∧ d.pending = #[] ∧ (∃ n, d.At n next) ∧ next < 2 ^ 31 ∧
      d.nextId = first ∧ d.functionCount = d.functions.size + 1 + countFunctions depth is ∧
      Around d.first (depth + 1) is around nexts
  | _, _ => False

/-- Only the functions that are still to come matter. -/
theorem Around.of_count {first : ValueId} {depth depth' : Nat} {is is' : List Instruction}
    {around : List Draft} {nexts : List Nat} (h : Around first depth is around nexts)
    (hc : ∀ j, countFunctions (depth + j) is = countFunctions (depth' + j) is') :
    Around first depth' is' around nexts := by
  induction around generalizing first depth depth' nexts with
  | nil =>
    cases nexts with
    | nil => trivial
    | cons => exact h.elim
  | cons d around ih =>
    cases nexts with
    | nil => exact h.elim
    | cons next nexts =>
      obtain ⟨hs, hp, hn, hlt, hf, hcount, haround⟩ := h
      refine ⟨hs, hp, hn, hlt, hf, by rw [hcount]; exact congrArg _ (hc 0), ih haround fun j => ?_⟩
      rw [Nat.add_assoc, Nat.add_assoc]
      exact hc (1 + j)

/-- A draft inside others that has its numbers and knows how many functions are to come. -/
structure Before (d : Draft) (next : Nat) (around : List Draft) (nexts : List Nat)
    (is : List Instruction) : Prop where
  sound : d.Sound
  at_next : ∃ n, d.At n next
  count : d.functionCount = d.functions.size + countFunctions 0 is
  around : Around d.first 1 is around nexts

namespace Before

variable {d d' : Draft} {next : Nat} {around : List Draft} {nexts : List Nat} {i : Instruction}
  {is : List Instruction}

/-- A draft that has gained at most values by an instruction. -/
theorem of_gains (h : Before d next around nexts (i :: is)) {vs : List Block}
    (hg : Gains d d' [] vs) (hi : ∀ k, countFunctions k (i :: is) = countFunctions k is) :
    Before d' (next + vs.length) around nexts is := by
  obtain ⟨n, ha⟩ := h.at_next
  refine ⟨hg.sound, ⟨n, hg.at_next ha⟩, ?_, ?_⟩
  · rw [hg.functionCount, hg.size_functions, h.count, hi]
    rfl
  · rw [hg.first]
    exact h.around.of_count fun j => hi _

/-- A function body is opened. -/
theorem enter {params : UInt32} (h : Before d next around nexts (.enter params :: is))
    (hp : d.pending = #[]) (hn : next < 2 ^ 31) (position : Nat) :
    Before (.start d.nextId params position is) (next + params.toNat + countFunctions 0 is)
      (d :: around) (next :: nexts) is := by
  obtain ⟨n, ha⟩ := h.at_next
  refine ⟨sound_start .., ⟨next, ?_⟩, (Nat.zero_add _).symm, h.sound, hp, ⟨n, ha⟩, hn, rfl, ?_, ?_⟩
  · rw [ha.nextId]
    exact at_start ..
  · rw [h.count, Nat.add_assoc]
    rfl
  · refine h.around.of_count fun j => ?_
    rw [Nat.add_comm 1 j, countFunctions, if_neg (Nat.succ_ne_zero j), Nat.zero_add]
    congr 1
    omega

/-- A function body is closed, which never fails. -/
theorem leave {parent : Draft} {outer : Nat}
    (h : Before d next (parent :: around) (outer :: nexts) (.leave :: is)) (hp : d.pending = #[]) :
    ∃ parent', parent.addFunction d = .ok parent' ∧ Before parent' outer around nexts is := by
  obtain ⟨hs, hpp, ⟨n, ha⟩, hn, hf, hcount, haround⟩ := h.around
  have hc : d.functions.size = d.functionCount := h.count.symm
  have hlt : parent.functions.size < parent.functionCount := by omega
  obtain ⟨parent', hadd⟩ := addFunction_ok hn hs ha hlt h.sound hp hc hf.symm
  obtain ⟨-, hg⟩ := gains_addFunction hs hpp hlt h.sound hp hc hf.symm hadd
  refine ⟨parent', hadd, hg.sound, ⟨n, hg.at_next ha⟩, ?_, ?_⟩
  · rw [hg.functionCount, hg.size_functions, hcount]
    rfl
  · rw [hg.first]
    refine haround.of_count fun j => ?_
    rw [show 1 + 1 + j = (1 + j) + 1 by omega, countFunctions, if_neg (Nat.succ_ne_zero _)]
    rfl

end Before

/-- What building says that fails: no number has left its range, and what is read too early is read by
the instruction at that position. -/
def Blames (start : Nat) (is : List Instruction) : GraphError → Prop
  | .overflow => False
  | .tooEarly position id => ∃ j i, position = start + j ∧ is[j]? = some i ∧ id ∈ i.operand?
  | .unopened _ | .unclosed _ | .strayArguments _ => True

theorem Blames.cons {start : Nat} {is : List Instruction} {e : GraphError}
    (h : Blames (start + 1) is e) (i : Instruction) : Blames start (i :: is) e := by
  cases e with
  | overflow => exact h
  | tooEarly position id =>
    obtain ⟨j, i', hj, hi', hid⟩ := h
    exact ⟨j + 1, i', by omega, hi', hid⟩
  | unopened | unclosed | strayArguments => trivial

theorem blames_head {start : Nat} {i : Instruction} {id : ValueId} (hid : id ∈ i.operand?)
    (is : List Instruction) : Blames start (i :: is) (.tooEarly start id) :=
  ⟨0, i, rfl, rfl, hid⟩

/-- What building says of an instruction that makes a value without taking arguments, or of what
follows it. -/
theorem blames_of_value {i : Instruction} {is : List Instruction}
    (hi : (∃ c, i = .constant c) ∨ (∃ v m f, i = .field v m f) ∨ ∃ v, i = .copy v) {d : Draft}
    {n next : Nat} {around : List Draft} {nexts : List Nat} (h : Before d next around nexts (i :: is))
    (ha : d.At n next) (hfit : ∀ x ∈ Instructions.numberedFrom next nexts (i :: is), x.1.Fits x.2)
    {start : Nat} {e : GraphError} (hb : Graph.buildFrom start d around (i :: is) = .error e)
    (ih : ∀ {d : Draft}, Before d (next + 1) around nexts is →
      (∀ x ∈ Instructions.numberedFrom (next + 1) nexts is, x.1.Fits x.2) →
      Graph.buildFrom (start + 1) d around is = .error e → Blames (start + 1) is e) :
    Blames start (i :: is) e := by
  have hcount (k : Nat) : countFunctions k (i :: is) = countFunctions k is := by
    rcases hi with ⟨c, rfl⟩ | ⟨v, m, f, rfl⟩ | ⟨v, rfl⟩ <;> rfl
  have hnumbered : Instructions.numberedFrom next nexts (i :: is) =
      (i, next) :: Instructions.numberedFrom (next + 1) nexts is := by
    rcases hi with ⟨c, rfl⟩ | ⟨v, m, f, rfl⟩ | ⟨v, rfl⟩ <;> rfl
  rw [hnumbered, List.forall_mem_cons] at hfit
  have hn : next < 2 ^ 31 :=
    hfit.1.lt (by rcases hi with ⟨c, rfl⟩ | ⟨v, m, f, rfl⟩ | ⟨v, rfl⟩ <;> simp)
  rw [buildFrom_cons_value hi] at hb
  split at hb
  · cases hb
    trivial
  · rename_i hp
    cases hd : d.dependAll d.nextIndex start i.operand?.toList with
    | error e' =>
      rw [hd] at hb
      cases hb
      obtain ⟨id', hid, rfl⟩ := dependAll_error h.sound.reflects ha hn (.inr rfl) hd
      exact blames_head (Option.mem_toList.mp hid) is
    | ok d₁ =>
      obtain ⟨hr, hl⟩ := h.sound.reflects.dependAll (.inr rfl) hd
      rw [hd] at hb
      change (d₁.takeValue [i] >>= fun d => Graph.buildFrom (start + 1) d around is) = _ at hb
      rw [(ha.of_same hl).takeValue hn] at hb
      have hv : (d₁.addValue [i]).Sound := h.sound.addValue hl hr (by
        simp only [pending_eq_empty hp, Array.toList_empty, List.filterMap_cons,
          List.filterMap_nil, List.nil_append]
        cases i.operand? <;> rfl)
      exact (ih (h.of_gains (hl.gains_addValue ha hv) hcount) hfit.2 hb).cons i

/-- What building says that fails, where all numbers fit. -/
theorem blames_of_buildFrom {is : List Instruction} {d : Draft} {next : Nat} {around : List Draft}
    {nexts : List Nat} (h : Before d next around nexts is)
    (hfit : ∀ x ∈ Instructions.numberedFrom next nexts is, x.1.Fits x.2) {start : Nat}
    {e : GraphError} (hb : Graph.buildFrom start d around is = .error e) : Blames start is e := by
  induction is generalizing d next around nexts start with
  | nil =>
    rw [Graph.buildFrom] at hb
    split at hb
    · cases hb
      trivial
    · split at hb <;> cases hb
      trivial
  | cons i is ih =>
    obtain ⟨n, ha⟩ := h.at_next
    -- an instruction that makes a value without taking arguments
    have value (hi : (∃ c, i = .constant c) ∨ (∃ v m f, i = .field v m f) ∨ ∃ v, i = .copy v) :
        Blames start (i :: is) e :=
      blames_of_value hi h ha hfit hb fun hd hfit hb => ih hd hfit hb
    cases i with
    | constant c => exact value (.inl ⟨c, rfl⟩)
    | field v m f => exact value (.inr (.inl ⟨v, m, f, rfl⟩))
    | copy v => exact value (.inr (.inr ⟨v, rfl⟩))
    | argument a =>
      have hn : next < 2 ^ 31 := hfit (.argument a, next) List.mem_cons_self
      rw [Graph.buildFrom] at hb
      cases hd : d.depend a d.nextIndex start with
      | error e' =>
        rw [hd, depend_error ha hn hd] at hb
        cases hb
        exact blames_head rfl is
      | ok d₁ =>
        rw [hd] at hb
        exact (ih (h.of_gains (h.sound.gains_withArgument hd) fun _ => rfl)
          (fun x hx => hfit x (List.mem_cons_of_mem _ hx)) hb).cons _
    | call a =>
      have hn : next < 2 ^ 31 := hfit (.call a, next) List.mem_cons_self
      rw [Graph.buildFrom] at hb
      cases hd : d.depend a d.nextIndex start with
      | error e' =>
        rw [hd, depend_error ha hn hd] at hb
        cases hb
        exact blames_head rfl is
      | ok d₁ =>
        obtain ⟨hr, hl⟩ := h.sound.reflects.depend (.inr rfl) hd
        rw [hd] at hb
        change (d₁.takeValue (d₁.pending.push (.call a)).toList >>= fun d =>
          Graph.buildFrom (start + 1) d around is) = _ at hb
        rw [(ha.of_same hl).takeValue hn] at hb
        have hv : (d₁.addValue (d₁.pending.push (.call a)).toList).Sound :=
          h.sound.addValue hl hr (by simp [hl.pending, Instruction.operand?])
        exact (ih (h.of_gains (hl.gains_addValue ha hv) fun _ => rfl)
          (fun x hx => hfit x (List.mem_cons_of_mem _ hx)) hb).cons _
    | enter params =>
      rw [Graph.buildFrom] at hb
      split at hb
      · cases hb
        trivial
      · rename_i hp
        have hfits := hfit (.enter params, next) List.mem_cons_self
        have hroom := ha.hasRoom hfits (h.sound.functions_le.trans (Nat.le_add_right ..))
        rw [enter_eq_ok.mpr ⟨rfl, hroom⟩] at hb
        exact (ih (h.enter (pending_eq_empty hp) (hfits.lt (by simp)) start)
          (fun x hx => hfit x (List.mem_cons_of_mem _ hx)) hb).cons _
    | leave =>
      unfold Graph.buildFrom at hb
      split at hb
      · cases hb
        trivial
      · rename_i hp
        cases around with
        | nil =>
          cases hb
          trivial
        | cons parent around =>
          cases nexts with
          | nil => exact h.around.elim
          | cons outer nexts =>
            obtain ⟨parent', hadd, h'⟩ := h.leave (pending_eq_empty hp)
            dsimp only at hb
            rw [hadd] at hb
            exact (ih h' (fun x hx => hfit x (List.mem_cons_of_mem _ hx)) hb).cons _

end Draft

/-- **Exactly well-formed instructions have a graph, and it keeps all of them.** A graph holds the
instructions in their order, each function body where it stood, and each block the arguments of one
instruction and that instruction. Where a value is read too early, the instruction that reads it is
at fault and no function around it. No number leaves its range on the way. -/
theorem Graph.build_exact {is : List Instruction} (hfit : Instructions.Fit is) :
    ((∃ g, Graph.build is = .ok g) ↔ Instructions.WellFormed is) ∧
    (∀ position id, Graph.build is = .error (.tooEarly position id) →
      ∃ i, is[position]? = some i ∧ id ∈ i.operand?) ∧
    Graph.build is ≠ .error .overflow ∧
    ∀ g, Graph.build is = .ok g → g.flatten = is ∧
      ∀ l ∈ g.levels, ∀ id js, Block.steps id js ∈ l.blocks →
        ∃ args i, Segment.Produces args i ∧ js = args.map .argument ++ [i] := by
  have hstart : Draft.Before (.start 0 0 0 is) (countFunctions 0 is) [] [] is :=
    ⟨Draft.sound_start .., ⟨0, rfl, by simp [Draft.start, Draft.nextIndex]⟩,
      (Nat.zero_add _).symm, trivial⟩
  refine ⟨⟨?_, fun h => ?_⟩, fun position id hb => ?_, fun hb => ?_, fun g hg => ?_⟩
  · rintro ⟨g, hg⟩
    obtain ⟨hcodes, hr, -, -, hreads⟩ := lays_of_build hg
    have hnumbered := Instructions.numbered_codes hr
    rw [hcodes] at hnumbered
    refine ⟨?_, ?_, fun x hx id hid => ?_⟩
    · have := (Instructions.balanced_codes hr 0 []).mpr rfl
      rwa [List.append_nil, hcodes] at this
    · have := Instructions.callsFollow_codes hr (show Instructions.CallsFollow [] from trivial)
      rwa [List.append_nil, hcodes] at this
    · refine hreads x (hnumbered ▸ hx) (Instruction.Fits.lt (hfit x hx) fun he => ?_) id hid
      rw [he] at hid
      cases hid
  · obtain ⟨ps, hr, rfl⟩ := Instructions.splits is 0 h.balanced h.callsFollow
    have hnumbered := Instructions.numbered_codes hr
    obtain ⟨g, hg, -⟩ := build_of_settled hr fun x hx => by
      rw [← hnumbered] at hx
      exact ⟨hfit x hx, h.readsBelow x hx⟩
    exact ⟨g, hg⟩
  · obtain ⟨j, i, hj, hi, hid⟩ := Draft.blames_of_buildFrom hstart hfit hb
    exact ⟨i, by rw [hj, Nat.zero_add]; exact hi, hid⟩
  · exact Draft.blames_of_buildFrom hstart hfit hb
  · obtain ⟨hcodes, hr, hgraph, -⟩ := lays_of_build hg
    have hnumbered := Instructions.numbered_codes hr
    rw [hcodes] at hnumbered
    refine ⟨?_, fun l hl id js hb => ?_⟩
    · rw [flatten_eq_codes hr (fun x hx => hfit x (hnumbered ▸ hx)) hgraph, hcodes]
    · obtain ⟨m, hm⟩ := List.mem_iff_getElem?.mp hl
      obtain ⟨qs, -, hlays⟩ := exists_lays hg hm
      obtain ⟨args, i, -, hsteps⟩ := hlays.steps hb
      exact ⟨args, i, hsteps⟩

/-- A function stands between two values of its level, and reads the first of them. -/
theorem Graph.build_exact_nested :
    Instructions.Fit [.constant 0, .enter 1, .argument 2, .call 1, .leave, .argument 1, .call 0] ∧
    ∃ g, Graph.build [.constant 0, .enter 1, .argument 2, .call 1, .leave, .argument 1, .call 0] =
        .ok g ∧ g.blocks.map Block.isFunction = [true, false, false] ∧
      g.flatten = [.constant 0, .enter 1, .argument 2, .call 1, .leave, .argument 1, .call 0] := by
  have hfit : Instructions.Fit
      [.constant 0, .enter 1, .argument 2, .call 1, .leave, .argument 1, .call 0] := by
    have hnumbered : Instructions.numbered
        [.constant 0, .enter 1, .argument 2, .call 1, .leave, .argument 1, .call 0] =
          [(.constant 0, 1), (.enter 1, 2), (.argument 2, 3), (.call 1, 3), (.leave, 4),
            (.argument 1, 2), (.call 0, 2)] := rfl
    rw [Instructions.Fit, hnumbered]
    simp [Instruction.Fits]
  have h : Graph.build [.constant 0, .enter 1, .argument 2, .call 1, .leave, .argument 1, .call 0] =
      .ok ⟨0, 0, [.function 0 ⟨2, 1, [.steps 3 [.argument 2, .call 1]], [[]]⟩,
        .steps 1 [.constant 0], .steps 2 [.argument 1, .call 0]], [[2], [0, 2], []]⟩ := by
    cbv
  exact ⟨hfit, _, h, rfl, ((Graph.build_exact hfit).2.2.2 _ h).1⟩

end Dataflow
