import Dataflow.Proofs.Compile.Statements
import Dataflow.Proofs.Run.Lookup
import Dataflow.Proofs.Value.Register

/-!
# Graphs that have all they need

The levels of a compiled unit are not empty, their numbers fit, and every block makes a value of
constants and built-in values that are there.

* `Making`: instructions that make a value and have all that they need;
* `Graph.Served`: all levels of a graph are like that;
* `Program.Served`: a program that runs on its own constants and environment;
* **`Node.compile_served`**: compiled programs are like that.
-/

namespace Dataflow

/-- A built-in value is there. -/
def Image.Has (image : Image) (id : ValueId) : Prop := (image.environment.get? id).isSome = true

/-- A constant stands at a position. -/
def Image.Holds (image : Image) (id : ConstantId) (c : Constant) : Prop :=
  image.constants[id.toNat]? = some c

/-- Instructions that make a value, and have all that they need. -/
inductive Making (image : Image) : List Instruction → Prop where
  | argument {id : ValueId} {rest : List Instruction}
    (hs : (Instruction.argument id).Served image.Has image.Holds) (hr : Making image rest) :
    Making image (.argument id :: rest)
  | value {i : Instruction} (hi : i.producesValue = true) (hs : i.Served image.Has image.Holds) :
    Making image [i]

/-- A level that has all it needs. -/
structure Graph.LevelServed (image : Image) (g : Graph) : Prop where
  fits : g.Fits
  nonempty : g.blocks ≠ []
  steps : ∀ {id is}, .steps id is ∈ g.blocks → Making image is

/-- A graph all of whose levels have what they need. -/
def Graph.Served (image : Image) (g : Graph) : Prop := ∀ l ∈ g.levels, l.LevelServed image

/-- All levels of a graph fit, and none of them is empty. -/
def Graph.Solid (g : Graph) : Prop := ∀ l ∈ g.levels, l.Fits ∧ l.blocks ≠ []

namespace Graph

variable {image : Image}

theorem inherited_solid : Inherited Solid := fun hg hb l hl => hg l (mem_levels_of_body hb hl)

theorem Solid.fits {g : Graph} (h : g.Solid) : g.Fits := (h g g.self_mem_levels).1

theorem Served.solid {g : Graph} (h : g.Served image) : g.Solid :=
  fun l hl => ⟨(h l hl).fits, (h l hl).nonempty⟩

theorem Served.level {g : Graph} (h : g.Served image) : g.LevelServed image := h g g.self_mem_levels

theorem Served.body {g body : Graph} {j : Nat} {id : ValueId} (h : g.Served image)
    (hb : g.blocks[j]? = some (.function id body)) : body.Served image :=
  fun l hl => h l (mem_levels_of_body hb hl)

end Graph

/-! ## The graphs of segments -/

namespace Segment

theorem Produces.producesValue {args : List ValueId} {i : Instruction} (h : Produces args i) :
    i.producesValue = true := by
  cases i with
  | call | constant | field | copy => rfl
  | argument | enter | leave => exact h.elim

theorem making {image : Image} {args : List ValueId} {i : Instruction} (h : Produces args i)
    (hs : ∀ j ∈ args.map Instruction.argument ++ [i], j.Served image.Has image.Holds) :
    Making image (args.map .argument ++ [i]) := by
  induction args with
  | nil => exact .value h.producesValue (hs i (by simp))
  | cons a args ih =>
    have hi : Produces args i := by
      cases i with
      | call => trivial
      | constant | field | copy => cases h
      | argument | enter | leave => exact h.elim
    exact .argument (hs (.argument a) (by simp))
      (ih hi fun j hj => hs j (List.mem_cons_of_mem _ hj))

/-- Blocks of values are steps. -/
theorem levels_stepsOf {next : Nat} {ps : List Segment} {b : Block} (hb : b ∈ stepsOf next ps) :
    b.levels = [] := by
  induction ps generalizing next with
  | nil => cases hb
  | cons p ps ih =>
    cases p with
    | value args i =>
      rw [stepsOf] at hb
      rcases List.mem_cons.mp hb with rfl | hb
      · rw [Block.levels]
      · exact ih hb
    | function params body =>
      rw [stepsOf] at hb
      exact ih hb

theorem making_of_mem_stepsOf {image : Image} {next : Nat} {ps : List Segment} (h : AllSound next ps)
    (hs : ∀ j ∈ codes ps, j.Served image.Has image.Holds) {start : Nat} {id : ValueId}
    {is : List Instruction} (hb : .steps id is ∈ stepsOf start ps) : Making image is := by
  induction ps generalizing next start with
  | nil => cases hb
  | cons p ps ih =>
    rw [AllSound] at h
    have hrest : ∀ j ∈ codes ps, j.Served image.Has image.Holds := fun j hj =>
      hs j (by rw [codes]; exact List.mem_append_right _ hj)
    cases p with
    | value args i =>
      rw [stepsOf] at hb
      rcases List.mem_cons.mp hb with he | hb
      · cases he
        rw [Sound] at h
        exact making h.1.1 fun j hj => hs j (by rw [codes, code]; exact List.mem_append_left _ hj)
      · exact ih h.2 hrest hb
    | function params body =>
      rw [stepsOf] at hb
      exact ih h.2 hrest hb

/-- Blocks of functions are functions. -/
theorem isFunction_of_mem_functionsOf {id next : Nat} {ps : List Segment} {fs : List Block}
    (h : FunctionsOf id next ps fs) {b : Block} (hb : b ∈ fs) : b.isFunction = true := by
  induction ps generalizing id next fs with
  | nil =>
    rw [FunctionsOf] at h
    rw [h] at hb
    cases hb
  | cons p ps ih =>
    cases p with
    | value args i =>
      rw [FunctionsOf] at h
      exact ih h hb
    | function params body =>
      rw [FunctionsOf] at h
      obtain ⟨g, bs', rfl, -, hfs⟩ := h
      rcases List.mem_cons.mp hb with rfl | hb
      · rfl
      · exact ih hfs hb

mutual

/-- The graph of a sound function has all it needs if its instructions do. -/
theorem served_of_graphOf {image : Image} {next : Nat} (p : Segment) (h : p.Sound next)
    (hs : ∀ j ∈ p.code, j.Served image.Has image.Holds) {g : Graph} (hg : GraphOf next p g) :
    g.Served image := by
  cases p with
  | value args i =>
    rw [GraphOf] at hg
    exact hg.elim
  | function params body =>
    rw [Sound] at h
    rw [GraphOf] at hg
    obtain ⟨hne, hfit, hbody⟩ := h
    obtain ⟨hfirst, hparams, fs, hfs, hblocks⟩ := hg
    have hs' : ∀ j ∈ codes body, j.Served image.Has image.Holds := fun j hj =>
      hs j (by rw [code]; simp [hj])
    have hlen : g.blocks.length = functions body + values body := by
      rw [hblocks, List.length_append, length_functionsOf hfs, length_stepsOf]
    have hown : g.LevelServed image := by
      refine ⟨?_, ?_, fun {id is} hb => ?_⟩
      · rw [Graph.Fits, Level.slotCount, hfirst, hparams, hlen, Draft.toInt_ofNat (by omega)]
        omega
      · intro h0
        rw [h0] at hlen
        refine hne (List.length_eq_zero_iff.mp ?_)
        rw [length_eq]
        exact hlen.symm
      · rw [hblocks] at hb
        rcases List.mem_append.mp hb with hb | hb
        · cases isFunction_of_mem_functionsOf hfs hb
        · exact making_of_mem_stepsOf hbody hs' hb
    intro l hl
    obtain ⟨first, params', blocks, dependents⟩ := g
    rw [Graph.levels, Block.levels] at hl
    rcases List.mem_cons.mp hl with rfl | hl
    · exact hown
    · obtain ⟨b, hb, hl⟩ := Graph.mem_allLevels.mp hl
      rw [show blocks = _ from hblocks] at hb
      rcases List.mem_append.mp hb with hb | hb
      · exact served_of_functionsOf body hbody hs' hfs hb l hl
      · rw [levels_stepsOf hb] at hl
        cases hl

theorem served_of_functionsOf {image : Image} {next : Nat} (ps : List Segment) (h : AllSound next ps)
    (hs : ∀ j ∈ codes ps, j.Served image.Has image.Holds) {id : Nat} {fs : List Block}
    (hfs : FunctionsOf id next ps fs) {b : Block} (hb : b ∈ fs) :
    ∀ l ∈ b.levels, l.LevelServed image := by
  cases ps with
  | nil =>
    rw [FunctionsOf] at hfs
    rw [hfs] at hb
    cases hb
  | cons p ps =>
    rw [AllSound] at h
    have hrest : ∀ j ∈ codes ps, j.Served image.Has image.Holds := fun j hj =>
      hs j (by rw [codes]; exact List.mem_append_right _ hj)
    have hown : ∀ j ∈ p.code, j.Served image.Has image.Holds := fun j hj =>
      hs j (by rw [codes]; exact List.mem_append_left _ hj)
    cases p with
    | value args i =>
      rw [FunctionsOf] at hfs
      exact served_of_functionsOf ps h.2 hrest hfs hb
    | function params body =>
      rw [FunctionsOf] at hfs
      obtain ⟨g, bs', rfl, hg, hfs⟩ := hfs
      rcases List.mem_cons.mp hb with rfl | hb
      · have hserved := served_of_graphOf (.function params body) h.1 hown hg
        obtain ⟨first, params', blocks, dependents⟩ := g
        intro l hl
        rw [Block.levels] at hl
        refine hserved l ?_
        rwa [Graph.levels, Block.levels]
      · exact served_of_functionsOf ps h.2 hrest hfs hb

end

end Segment

/-! ## Compiled programs -/

/-- A program whose graph was built and has all it needs on its own image. -/
structure Program.Served (p : Program) : Prop where
  built : Graph.build p.code.instructions = .ok p.graph
  served : p.graph.Served p.image

theorem Environment.get?_of_idOf? {e : Environment} (hs : e.size ≤ 2 ^ 31) {name : String}
    {id : ValueId} (h : e.idOf? name = some id) : id < 0 ∧ (e.get? id).isSome = true := by
  obtain ⟨index, hi, rfl⟩ := Option.map_eq_some_iff.mp h
  have hlt : index < e.entries.length := (List.findIdx?_eq_some_iff_findIdx_eq.mp hi).1
  have hle : index < 2 ^ 31 := Nat.lt_of_lt_of_le hlt hs
  refine ⟨idAt_neg hle, ?_⟩
  rw [get?, entry?_idAt hle, List.getElem?_eq_getElem hlt]
  rfl

/-- **Compiled programs are built and have all they need.** -/
theorem Node.compile_served {root : Node} {e : Environment} {code : Code}
    (hw : root.weight < 2 ^ 31) (hs : e.size ≤ 2 ^ 31) (hc : root.compile e.idOf? = .ok code) :
    ∃ p, Program.ofCode code e = .ok p ∧ p.Served := by
  have hb {name : String} {id : ValueId} (h : e.idOf? name = some id) :
      id < 0 ∧ (Image.mk code.constants.toArray e).Has id := Environment.get?_of_idOf? hs h
  obtain ⟨ps, hi, hne, hfit, hsound, hserved⟩ := compile_segments hb hw hc
  obtain ⟨g, hg, hgraph⟩ := Graph.build_codes hfit hsound
  rw [← hi] at hg
  refine ⟨⟨code, g, e⟩, ?_, hg, ?_⟩
  · rw [Program.ofCode, hg]
  · refine Segment.served_of_graphOf (.function 0 ps) ?_ (fun j hj => ?_) hgraph
    · rw [Segment.Sound]
      exact ⟨hne, by simpa using hfit, by simpa using hsound⟩
    · rw [Segment.code] at hj
      simp only [List.cons_append, List.mem_cons, List.mem_append, List.not_mem_nil,
        or_false] at hj
      rcases hj with rfl | hj | rfl
      · trivial
      · rw [← hi] at hj
        refine (hserved j hj).mono fun {id c} hcs => ?_
        show code.constants.toArray[id.toNat]? = some c
        rw [List.getElem?_toArray]
        exact hcs
      · trivial

end Dataflow
