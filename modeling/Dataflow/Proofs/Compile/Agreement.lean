import Dataflow.Proofs.Compile.Record
import Dataflow.Proofs.Value.Register

/-!
# Compiling and building number alike

Numbers do not stand in the instructions. Compiling gives them out as it goes, and building counts
them again. Both come to the same, scope by scope.

* `Numbering.Agrees`: a graph has the numbers that were given out for its scope;
* `Given.AllMatch`: what was given out matches segments one by one;
* `Given.allMatch_of_codes`: instructions can be cut into segments in one way only;
* **`Node.numbering_agrees`**: the graph of a compiled program has the numbers that compiling gave out.
-/

namespace Dataflow

/-- A graph has the numbers that were given out for its scope, and so have the functions in it. -/
inductive Numbering.Agrees : Numbering → Graph → Prop where
  | intro {n : Numbering} {g : Graph}
    (first : g.first = n.first)
    (params : g.params.toNat = n.params.length)
    -- numbers are consecutive: parameters, then functions, then values
    (consecutive : n.params ++ n.hoisted ++ (Given.values n.given).map Prod.fst =
      Given.run n.first (n.params.length + n.hoisted.length + (Given.values n.given).length))
    (distinct : (n.params ++ n.hoisted ++ (Given.values n.given).map Prod.fst).Nodup)
    (blocks : g.blocks.map Block.id = n.hoisted ++ (Given.values n.given).map Prod.fst)
    (values : ∀ {i : Nat} {id is}, (Given.values n.given)[i]? = some (id, is) →
      g.blocks[n.hoisted.length + i]? = some (.steps id is))
    (functions : ∀ {i : Nat} {id scope}, (Given.functions n.given)[i]? = some (id, scope) →
      ∃ body, g.blocks[i]? = some (.function id body))
    (bodies : ∀ {i : Nat} {id scope body}, (Given.functions n.given)[i]? = some (id, scope) →
      g.blocks[i]? = some (.function id body) → Agrees scope body)
    -- a function body goes on from the number that its scope has reached
    (entered : ∀ {before after id scope}, n.given = before ++ .function id scope :: after →
      scope.first =
        n.first + .ofNat (n.params.length + n.hoisted.length + (Given.values before).length))
    (result : g.result? = some n.result) : Agrees n g

namespace Given

/-! ## Cutting instructions into segments -/

mutual

/-- A value or a function that consists of the instructions of a segment. -/
def Matches : Given → Segment → Prop
  | value _ is, .value args i => is = args.map .argument ++ [i]
  | function _ ⟨_, params, _, given, _⟩, .function count body =>
    count = .ofNat params.length ∧ AllMatch given body
  | _, _ => False

/-- Values and functions that match segments one by one. -/
def AllMatch : List Given → List Segment → Prop
  | [], [] => True
  | g :: gs, p :: ps => Matches g p ∧ AllMatch gs ps
  | _, _ => False

end

/-- Nothing follows, or the end of a function does. -/
def Ends (r : List Instruction) : Prop := ∀ i t, r = i :: t → i = .leave

theorem ends_leave (t : List Instruction) : Ends (.leave :: t) := by
  rintro i t' ⟨⟩
  rfl

/-- The arguments before an instruction that is none. -/
theorem arguments_inj {args args' : List ValueId} {i i' : Instruction} {r r' : List Instruction}
    (hi : Segment.Produces args i) (hi' : Segment.Produces args' i')
    (h : args.map Instruction.argument ++ i :: r = args'.map Instruction.argument ++ i' :: r') :
    args = args' ∧ i = i' ∧ r = r' := by
  induction args generalizing args' with
  | nil =>
    cases args' with
    | nil =>
      cases h
      exact ⟨rfl, rfl, rfl⟩
    | cons a args' =>
      cases h
      exact hi.elim
  | cons a args ih =>
    cases args' with
    | nil =>
      cases h
      exact hi'.elim
    | cons a' args' =>
      have hcall {as : List ValueId} {b : ValueId} {j : Instruction}
          (hj : Segment.Produces (b :: as) j) : Segment.Produces as j := by
        cases j with
        | call => trivial
        | constant | field | copy => cases hj
        | argument | enter | leave => exact hj.elim
      rw [List.map_cons, List.map_cons, List.cons_append, List.cons_append, List.cons.injEq] at h
      obtain ⟨ha, h⟩ := h
      cases ha
      obtain ⟨rfl, rfl, rfl⟩ := ih (hcall hi) (hcall hi') h
      exact ⟨rfl, rfl, rfl⟩

/-- The first instruction of a value. -/
theorem exists_cons_of_produces {args : List ValueId} {i : Instruction} (h : Segment.Produces args i)
    (r : List Instruction) : ∃ j t, args.map Instruction.argument ++ i :: r = j :: t ∧ j ≠ .leave ∧
      ∀ count, j ≠ .enter count := by
  cases args with
  | nil =>
    refine ⟨i, r, rfl, ?_, fun count => ?_⟩ <;>
    · rintro rfl
      exact h
  | cons a args =>
    refine ⟨.argument a, _, rfl, ?_, fun count => ?_⟩ <;>
    · intro he
      cases he

/-- No segment begins with the end of a function. -/
theorem exists_cons_of_sound {next : Nat} {p : Segment} (h : p.Sound next) (r : List Instruction) :
    ∃ j t, p.code ++ r = j :: t ∧ j ≠ .leave := by
  cases p with
  | value args i =>
    rw [Segment.Sound] at h
    obtain ⟨j, t, hj, hne, -⟩ := exists_cons_of_produces h.1 r
    exact ⟨j, t, by rw [Segment.code, List.append_assoc]; exact hj, hne⟩
  | function count body =>
    exact ⟨.enter count, _, by rw [Segment.code, List.cons_append, List.cons_append],
      fun he => by cases he⟩

theorem exists_cons_of_orderly {next : ValueId} {g : Given} {gs : List Given}
    (h : Orderly next (g :: gs)) (r : List Instruction) :
    ∃ j t, code g ++ r = j :: t ∧ j ≠ .leave := by
  cases g with
  | value id is =>
    rw [Orderly] at h
    obtain ⟨-, ⟨args, i, rfl, hi⟩, -⟩ := h
    obtain ⟨j, t, hj, hne, -⟩ := exists_cons_of_produces hi r
    exact ⟨j, t, by rw [code, List.append_assoc]; exact hj, hne⟩
  | function id scope =>
    obtain ⟨first, params, hoisted, given, result⟩ := scope
    exact ⟨.enter (.ofNat params.length), _, by rw [code, List.cons_append, List.cons_append],
      fun he => by cases he⟩

theorem Orderly.tail {next : ValueId} {g : Given} {gs : List Given} (h : Orderly next (g :: gs)) :
    ∃ next', Orderly next' gs := by
  cases g with
  | value id is =>
    rw [Orderly] at h
    exact ⟨_, h.2.2⟩
  | function id scope =>
    rw [Orderly] at h
    exact ⟨_, h.2⟩

mutual

theorem matches_of_code {next : ValueId} {next' : Nat} (g : Given) {gs : List Given}
    (hg : Orderly next (g :: gs)) {p : Segment} (hp : p.Sound next') {r r' : List Instruction}
    (h : code g ++ r = p.code ++ r') : Matches g p ∧ r = r' := by
  match g, p with
  | .value id is, .value args i =>
    rw [Orderly] at hg
    obtain ⟨-, ⟨args', i', rfl, hi'⟩, -⟩ := hg
    rw [Segment.Sound] at hp
    rw [code, Segment.code, List.append_assoc, List.append_assoc] at h
    obtain ⟨rfl, rfl, hr⟩ := arguments_inj hi' hp.1 h
    exact ⟨by rw [Matches], hr⟩
  | .value id is, .function count body =>
    rw [Orderly] at hg
    obtain ⟨-, ⟨args', i', rfl, hi'⟩, -⟩ := hg
    obtain ⟨j, t, hj, -, hne⟩ := exists_cons_of_produces hi' r
    rw [code, List.append_assoc, List.singleton_append, hj, Segment.code, List.cons_append,
      List.cons_append, List.cons.injEq] at h
    exact absurd h.1 (hne count)
  | .function id ⟨first, params, hoisted, given, result⟩, .value args i =>
    rw [Segment.Sound] at hp
    obtain ⟨j, t, hj, -, hne⟩ := exists_cons_of_produces hp.1 r'
    rw [Segment.code, List.append_assoc, List.singleton_append, hj, code, List.cons_append,
      List.cons_append, List.cons.injEq] at h
    exact absurd h.1.symm (hne _)
  | .function id ⟨first, params, hoisted, given, result⟩, .function count body =>
    rw [Orderly, OrderlyScope] at hg
    rw [Segment.Sound] at hp
    rw [code, Segment.code, List.cons_append, List.cons_append, List.cons_append, List.cons_append,
      List.cons.injEq, List.append_assoc, List.append_assoc] at h
    obtain ⟨hcount, h⟩ := h
    obtain ⟨hm, hr⟩ := allMatch_of_codes given hg.1.2.2.2.1 hp.2.2 (ends_leave r) (ends_leave r') h
    cases hcount
    rw [Matches]
    exact ⟨⟨rfl, hm⟩, (List.cons.inj hr).2⟩

/-- Instructions can be cut into segments in one way only. -/
theorem allMatch_of_codes {next : ValueId} {next' : Nat} (gs : List Given) (hg : Orderly next gs)
    {ps : List Segment} (hp : Segment.AllSound next' ps) {r r' : List Instruction} (hr : Ends r)
    (hr' : Ends r') (h : codes gs ++ r = Segment.codes ps ++ r') : AllMatch gs ps ∧ r = r' := by
  match gs, ps with
  | [], [] => exact ⟨by rw [AllMatch]; trivial, by simpa [codes, Segment.codes] using h⟩
  | [], p :: ps =>
    rw [Segment.AllSound] at hp
    obtain ⟨j, t, hj, hne⟩ := exists_cons_of_sound hp.1 (Segment.codes ps ++ r')
    rw [codes, List.nil_append, Segment.codes, List.append_assoc] at h
    exact absurd (hr j t (h.trans hj)) hne
  | g :: gs, [] =>
    obtain ⟨j, t, hj, hne⟩ := exists_cons_of_orderly hg (codes gs ++ r)
    rw [codes, Segment.codes, List.nil_append, List.append_assoc] at h
    exact absurd (hr' j t (h.symm.trans hj)) hne
  | g :: gs, p :: ps =>
    rw [Segment.AllSound] at hp
    rw [codes, Segment.codes, List.append_assoc, List.append_assoc] at h
    obtain ⟨hm, h⟩ := matches_of_code g hg hp.1 h
    obtain ⟨n, hg'⟩ := hg.tail
    obtain ⟨hms, hrr⟩ := allMatch_of_codes gs hg' hp.2 hr hr' h
    rw [AllMatch]
    exact ⟨⟨hm, hms⟩, hrr⟩

end

/-! ## The graph of segments -/

theorem ofNat_add_one (n : Nat) : Int32.ofNat n + 1 = Int32.ofNat (n + 1) :=
  (Int32.ofNat_add n 1).symm

theorem length_of_allMatch {gs : List Given} {ps : List Segment} (hm : AllMatch gs ps) :
    (functions gs).length = Segment.functions ps ∧ (values gs).length = Segment.values ps := by
  induction gs generalizing ps with
  | nil =>
    cases ps with
    | nil => exact ⟨rfl, rfl⟩
    | cons p ps => simp [AllMatch] at hm
  | cons g gs ih =>
    cases ps with
    | nil => simp [AllMatch] at hm
    | cons p ps =>
      rw [AllMatch] at hm
      obtain ⟨hf, hv⟩ := ih hm.2
      cases g with
      | value id is =>
        cases p with
        | value args i => exact ⟨hf, congrArg (· + 1) hv⟩
        | function count body => simp [Matches] at hm
      | function id scope =>
        cases p with
        | value args i => simp [Matches] at hm
        | function count body => exact ⟨congrArg (· + 1) hf, hv⟩

/-- The blocks of values have the numbers that were given out. -/
theorem stepsOf_eq {next : Nat} {gs : List Given} (hg : Orderly (.ofNat next) gs)
    {ps : List Segment} (hm : AllMatch gs ps) :
    Segment.stepsOf next ps = (values gs).map fun x => .steps x.1 x.2 := by
  induction gs generalizing next ps with
  | nil =>
    cases ps with
    | nil => rfl
    | cons p ps => simp [AllMatch] at hm
  | cons g gs ih =>
    cases ps with
    | nil => simp [AllMatch] at hm
    | cons p ps =>
      rw [AllMatch] at hm
      cases g with
      | value id is =>
        rw [Orderly, ofNat_add_one] at hg
        cases p with
        | value args i =>
          have he := hm.1
          rw [Matches] at he
          rw [Segment.stepsOf, ih hg.2.2 hm.2, values, List.map_cons, hg.1, he]
        | function count body => simp [Matches] at hm
      | function id scope =>
        rw [Orderly] at hg
        cases p with
        | value args i => simp [Matches] at hm
        | function count body => rw [Segment.stepsOf, ih hg.2 hm.2, values]

/-- The blocks of functions have consecutive numbers. -/
theorem ids_functionsOf {id next : Nat} {ps : List Segment} {fs : List Block}
    (h : Segment.FunctionsOf id next ps fs) :
    fs.map Block.id = run (.ofNat id) (Segment.functions ps) := by
  induction ps generalizing id next fs with
  | nil =>
    rw [Segment.FunctionsOf] at h
    rw [h]
    rfl
  | cons p ps ih =>
    cases p with
    | value args i =>
      rw [Segment.FunctionsOf] at h
      exact ih h
    | function count body =>
      rw [Segment.FunctionsOf] at h
      obtain ⟨g, fs', rfl, -, hfs⟩ := h
      rw [List.map_cons, ih hfs, Segment.functions, run_succ, ofNat_add_one]
      rfl

/-- Fewer than all numbers are distinct. -/
theorem nodup_run (first : ValueId) {count : Nat} (h : count < 2 ^ 31) : (run first count).Nodup := by
  refine List.Nodup.map_on (fun i hi j hj he => ?_) List.nodup_range
  rw [List.mem_range] at hi hj
  have hij := congrArg Int32.toInt ((Int32.add_right_inj _).mp he)
  rw [Int32.toInt_ofNat_of_lt (hi.trans h), Int32.toInt_ofNat_of_lt (hj.trans h)] at hij
  exact Int.ofNat_inj.mp hij

/-- A function body goes on from the number that was reached before it. -/
theorem Orderly.first_eq {next : ValueId} {before after : List Given} {id : ValueId}
    {scope : Numbering} (h : Orderly next (before ++ .function id scope :: after)) :
    scope.first = next + .ofNat (values before).length := by
  induction before generalizing next with
  | nil =>
    obtain ⟨first, params, hoisted, given, result⟩ := scope
    rw [List.nil_append, Orderly, OrderlyScope] at h
    rw [values, List.length_nil, add_ofNat_zero]
    exact h.1.1
  | cons g before ih =>
    cases g with
    | value id' is =>
      rw [List.cons_append, Orderly] at h
      rw [ih h.2.2, values, List.length_cons, Nat.add_comm, add_ofNat_add]
      rfl
    | function id' scope' =>
      rw [List.cons_append, Orderly] at h
      exact ih h.2

/-- The graph of a scope has the numbers that were given out for it, when its functions have those
of theirs. -/
theorem agrees_of_graphOf {next : Nat} {n : Numbering} (hn : OrderlyScope (.ofNat next) n)
    (hw : n.params.length < 2 ^ 32) {body : List Segment} (hm : AllMatch n.given body)
    (hfit : n.params.length + Segment.functions body + Segment.values body < 2 ^ 31)
    (hs : Segment.AllSound (next + n.params.length + Segment.functions body) body) {g : Graph}
    (hg : Segment.GraphOf next (.function (.ofNat n.params.length) body) g)
    (hf : ∀ {id next' fs}, Orderly (.ofNat next') n.given → Segment.AllSound next' body →
      Segment.FunctionsOf id next' body fs → ∀ {i : Nat} {fid scope},
        (functions n.given)[i]? = some (fid, scope) →
          ∃ fid' b, fs[i]? = some (.function fid' b) ∧ scope.Agrees b) : n.Agrees g := by
  obtain ⟨first, params, hoisted, given, result⟩ := n
  dsimp only at hw hm hfit hs hg hf
  rw [OrderlyScope] at hn
  obtain ⟨rfl, hparams, hhoisted, horderly, hids, hresult⟩ := hn
  have hcount : (UInt32.ofNat params.length).toNat = params.length := UInt32.toNat_ofNat_of_lt' hw
  rw [Segment.GraphOf, hcount] at hg
  obtain ⟨hfirst, hgp, fs, hfs, hblocks⟩ := hg
  obtain ⟨hlf, hlv⟩ := length_of_allMatch hm
  have hlen : hoisted.length = Segment.functions body := by rw [← hlf, hids, List.length_map]
  rw [← hlen] at hfs hblocks
  have hnext : Int32.ofNat (next + params.length + hoisted.length) =
      .ofNat next + .ofNat (params.length + hoisted.length) := by
    rw [Nat.add_assoc, Int32.ofNat_add]
  have horder : Orderly (.ofNat (next + params.length + hoisted.length)) given := hnext ▸ horderly
  have hsteps := stepsOf_eq horder hm
  have hfids : fs.map Block.id = hoisted := by
    rw [ids_functionsOf hfs, ← hlen, Int32.ofNat_add]
    exact hhoisted.symm
  have hflen : fs.length = hoisted.length := by rw [← hfids, List.length_map]
  have hbids : g.blocks.map Block.id = hoisted ++ (values given).map Prod.fst := by
    rw [hblocks, List.map_append, hfids, hsteps, List.map_map]
    rfl
  have hfunction {i : Nat} {id : ValueId} {scope : Numbering}
      (h : (functions given)[i]? = some (id, scope)) :
      ∃ b, g.blocks[i]? = some (.function id b) ∧ scope.Agrees b := by
    obtain ⟨id', b, hb, ha⟩ := hf horder (hlen ▸ hs) hfs h
    have hid : (fs.map Block.id)[i]? = ((functions given).map Prod.fst)[i]? := by rw [hfids, hids]
    rw [List.getElem?_map, List.getElem?_map, hb, h] at hid
    obtain rfl : id' = id := Option.some.inj hid
    refine ⟨b, ?_, ha⟩
    rw [hblocks, List.getElem?_append_left (List.getElem?_eq_some_iff.mp hb).1, hb]
  have hrun : params ++ hoisted ++ (values given).map Prod.fst =
      run (.ofNat next) (params.length + hoisted.length + (values given).length) := by
    rw [run_append, run_append, ← hparams, ← hhoisted, ← horderly.ids]
  refine .intro hfirst (hgp ▸ hcount) hrun ?_ hbids ?_ ?_ ?_ ?_ ?_
  · dsimp only
    rw [hrun]
    exact nodup_run _ (by omega)
  · intro i id is h
    dsimp only
    rw [hblocks, List.getElem?_append_right (by omega), hflen, Nat.add_sub_cancel_left, hsteps,
      List.getElem?_map, h]
    rfl
  · intro i id scope h
    obtain ⟨b, hb, -⟩ := hfunction h
    exact ⟨b, hb⟩
  · intro i id scope b h hb
    obtain ⟨b', hb', ha⟩ := hfunction h
    obtain rfl : b = b' := by simpa using hb.symm.trans hb'
    exact ha
  · rintro before after id scope rfl
    rw [horderly.first_eq, ← add_ofNat_add]
  · rw [Graph.result?, ← hresult, ← hbids, List.getLast?_map]

/-- The functions of a scope have the numbers that were given out for their own scopes. -/
theorem agrees_of_functionsOf {id next : Nat} (gs : List Given) (hg : Orderly (.ofNat next) gs)
    (hw : widths gs < 2 ^ 32) {ps : List Segment} (hp : Segment.AllSound next ps)
    (hm : AllMatch gs ps) {fs : List Block}
    (hf : Segment.FunctionsOf id next ps fs) {i : Nat} {fid : ValueId} {scope : Numbering}
    (hi : (functions gs)[i]? = some (fid, scope)) :
    ∃ fid' body, fs[i]? = some (.function fid' body) ∧ scope.Agrees body := by
  match gs, ps with
  | [], ps => cases hi
  | g :: gs, [] => simp [AllMatch] at hm
  | .value id' is :: gs, .value args j :: ps =>
    rw [Orderly, ofNat_add_one] at hg
    rw [AllMatch] at hm
    rw [Segment.FunctionsOf] at hf
    rw [Segment.AllSound] at hp
    rw [widths, width, Nat.zero_add] at hw
    exact agrees_of_functionsOf gs hg.2.2 hw hp.2 hm.2 hf hi
  | .value id' is :: gs, .function count body :: ps => simp [AllMatch, Matches] at hm
  | .function id' scope' :: gs, .value args j :: ps => simp [AllMatch, Matches] at hm
  | .function id' ⟨first, params, hoisted, given, result⟩ :: gs, .function count body :: ps =>
    rw [Orderly] at hg
    rw [AllMatch, Matches] at hm
    obtain ⟨⟨rfl, hbody⟩, hms⟩ := hm
    rw [Segment.FunctionsOf] at hf
    obtain ⟨b, fs', rfl, hb, hfs⟩ := hf
    rw [widths, width] at hw
    rw [Segment.AllSound, Segment.Sound] at hp
    cases i with
    | zero =>
      cases hi
      have hlt : params.length < 2 ^ 32 := by omega
      rw [UInt32.toNat_ofNat_of_lt' hlt] at hp
      refine ⟨_, b, rfl, agrees_of_graphOf hg.1 hlt hbody (by dsimp only; omega) hp.1.2.2 hb ?_⟩
      exact fun ho hs => agrees_of_functionsOf given ho (by omega) hs hbody
    | succ i => exact agrees_of_functionsOf gs hg.2 (by omega) hp.2 hms hfs hi
termination_by sizeOf gs

end Given

/-- **The graph of a compiled program has the numbers that compiling gave out**, in every scope. -/
theorem Node.numbering_agrees {root : Node} {e : Environment} {code : Code}
    (hw : root.weight < 2 ^ 31) (hs : e.size ≤ 2 ^ 31) (hc : root.compile e.idOf? = .ok code) :
    ∃ n g, root.record e.idOf? = .ok n ∧ Given.codes n.given = code.instructions ∧
      Graph.build code.instructions = .ok g ∧ n.Agrees g := by
  have hb {name : String} {id : ValueId} (h : e.idOf? name = some id) : id < 0 ∧ True := by
    obtain ⟨index, hi, rfl⟩ := Option.map_eq_some_iff.mp h
    have hlt := (List.findIdx?_eq_some_iff_findIdx_eq.mp hi).1
    exact ⟨Environment.idAt_neg (Nat.lt_of_lt_of_le hlt hs), trivial⟩
  obtain ⟨ps, hi, -, hfit, hsound, -⟩ := compile_segments hb hw hc
  obtain ⟨g, hg, hgraph⟩ := Graph.build_codes hfit hsound
  obtain ⟨⟨first, params, hoisted, given, result⟩, hn, hfirst, hparams, ho, hcodes, hwidths⟩ :=
    record_compile hc
  cases hparams
  have ho' := ho
  rw [Given.OrderlyScope] at ho'
  have hend : Given.Ends [] := fun i t h => by cases h
  obtain ⟨hm, -⟩ := Given.allMatch_of_codes given ho'.2.2.2.1 hsound hend hend
    (congrArg (· ++ []) (hcodes.trans hi))
  have hwide : Given.widths given < 2 ^ 32 := by
    dsimp only at hwidths
    omega
  refine ⟨_, g, hn, hcodes, hi ▸ hg, Given.agrees_of_graphOf ho ?_ hm ?_ ?_ hgraph ?_⟩
  · exact Nat.zero_lt_succ _
  · simpa using hfit
  · simpa using hsound
  · exact fun ho' hs' => Given.agrees_of_functionsOf given ho' hwide hs' hm

/-- The statements `1`, `fn f(x): x`, `f(1)` and `1`. -/
def Node.interleaved : Node :=
  .list default [.literal default (.int 1), .function default "f" ["x"] (.ident default "x"),
    .call default (.ident default "f") [.literal default (.int 1)], .literal default (.int 1)]

/-- The unit of these statements. -/
def Code.interleaved : Code :=
  ⟨.zero, [.ofInt 1],
    [.constant 0, .enter 1, .copy 2, .leave, .argument 1, .call 0, .copy 1]⟩

/-- The function is number 0 and stands first. Its scope goes on from number 2, which is also given
to the call after it. -/
theorem Node.numbering_agrees_interleaved : ∃ (g body : Graph),
    Graph.build Code.interleaved.instructions = .ok g ∧ g.blocks.map Block.id = [0, 1, 2, 3] ∧
    g.blocks[0]? = some (.function 0 body) ∧ body.first = 2 ∧ body.result? = some 3 := by
  have hc : Node.interleaved.compile Environment.empty.idOf? = .ok Code.interleaved := by
    decide +kernel
  obtain ⟨n, g, hn, -, hg, ha⟩ := Node.numbering_agrees (by decide) (by decide) hc
  have hids : (Node.interleaved.record Environment.empty.idOf?).toOption.map
      (fun n => n.hoisted ++ (Given.values n.given).map Prod.fst) = some [0, 1, 2, 3] := by
    decide +kernel
  have hf : (Node.interleaved.record Environment.empty.idOf?).toOption.bind
      (fun n => (Given.functions n.given)[0]?.map fun f => (f.1, f.2.first, f.2.result)) =
        some (0, 2, 3) := by
    decide +kernel
  rw [hn] at hids hf
  obtain ⟨⟨id, scope⟩, hscope, hf⟩ := Option.map_eq_some_iff.mp hf
  rw [Prod.mk.injEq, Prod.mk.injEq] at hf
  dsimp only at hf
  obtain ⟨rfl, hfirst, hresult⟩ := hf
  obtain ⟨-, -, -, -, hblocks, -, hfunctions, hbodies, -, -⟩ := ha
  obtain ⟨body, hbody⟩ := hfunctions hscope
  obtain ⟨hfirst', -, -, -, -, -, -, -, -, hresult'⟩ := hbodies hscope hbody
  exact ⟨g, body, hg, hblocks.trans (Option.some.inj hids), hbody, hfirst'.trans hfirst,
    hresult'.trans (congrArg some hresult)⟩

end Dataflow
