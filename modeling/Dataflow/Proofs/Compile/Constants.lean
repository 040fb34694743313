import Dataflow.Proofs.Compile.Positions
import Dataflow.Proofs.Compile.Statements
import Dataflow.Proofs.Graph.WellFormed

/-!
# The constants of compiled programs

The constants of a unit are the literals and field names of its tree, each of them once, in the order
in which they come first. A literal is given a value once in its scope, and every instruction that
names a constant names that of its literal or of its field.

* `Use`, `Node.constants`, `Node.literals`, `Node.uses`: what a tree uses constants for;
* `Instruction.Serves`: an instruction that names the right constant;
* `Emission.Gathers`: the constants and instructions that an emission gains;
* `Code.ExactPool`: what is said of a unit;
* **`Node.compile_exactPool`**: it holds of every program that compiles, and constants are missing only
  if there are too many of them.
-/

namespace Dataflow

open Constants

/-! ## Constants of trees -/

/-- What an instruction uses a constant for. -/
inductive Use where
  | literal (l : Literal)
  | field (name : String)

namespace Use

/-- The constant that is used. -/
def constant : Use → Constant
  | literal l => l.constant
  | field name => .ofText name

/-- A constant is decoded to what it is used for, floats bit by bit. -/
def Decodes (c : Constant) : Use → Prop
  | literal (.int n) => c.toInt? = some n
  | literal (.float x) => c.toFloat? = some x
  | literal (.str s) | field s => c.toText? = some s

theorem decodes_constant (u : Use) : u.Decodes u.constant := by
  cases u with
  | literal l =>
    cases l with
    | int n => exact congrArg (Option.map UInt64.toInt64) (Constant.word?_littleEndian _)
    | float x =>
      refine (congrArg (Option.map Float.ofBits) (Constant.word?_littleEndian _)).trans ?_
      exact congrArg some (Float.ofBits_toBits x)
    | str s => exact textOf?_utf8 s
  | field name => exact textOf?_utf8 name

end Use

mutual

/-- The constants that a tree mentions, in the order in which it is compiled. -/
def Node.constants : Node → List Constant
  | .literal _ l => [l.constant]
  | .ident _ _ => []
  | .assign _ _ value => value.constants
  | .call _ callee args => callee.constants ++ constantsAll args
  | .select _ value field _ => value.constants ++ [.ofText field]
  | .function _ _ _ body => body.constants
  | .list _ items => constantsAll items

/-- The constants that trees mention. -/
def Node.constantsAll : List Node → List Constant
  | [] => []
  | item :: items => item.constants ++ constantsAll items

end

mutual

/-- The constants of the literals of a tree, those in function bodies left out. -/
def Node.literals : Node → List Constant
  | .literal _ l => [l.constant]
  | .ident _ _ | .function .. => []
  | .assign _ _ value | .select _ value _ _ => value.literals
  | .call _ callee args => callee.literals ++ literalsAll args
  | .list _ items => literalsAll items

/-- The constants of the literals of trees. -/
def Node.literalsAll : List Node → List Constant
  | [] => []
  | item :: items => item.literals ++ literalsAll items

end

mutual

/-- What a tree uses constants for: fields, and literals that are not `known` in their scope. -/
def Node.uses (known : List Constant) : Node → List Use
  | .literal _ l => if l.constant ∈ known then [] else [.literal l]
  | .ident _ _ => []
  | .assign _ _ value => value.uses known
  | .call _ callee args => callee.uses known ++ usesAll (known ++ callee.literals) args
  | .select _ value field _ => value.uses known ++ [.field field]
  | .function _ _ _ body => body.uses []
  | .list _ items => usesAll known items

/-- What trees use constants for. -/
def Node.usesAll (known : List Constant) : List Node → List Use
  | [] => []
  | item :: items => item.uses known ++ usesAll (known ++ item.literals) items

end

namespace Node

mutual

theorem literals_subset (node : Node) : node.literals ⊆ node.constants := by
  cases node with
  | literal => exact List.Subset.refl _
  | ident | function => exact List.nil_subset _
  | assign span names value =>
    rw [literals, constants]
    exact value.literals_subset
  | call span callee args =>
    rw [literals, constants]
    exact List.append_subset.mpr ⟨List.subset_append_of_subset_left _ callee.literals_subset,
      List.subset_append_of_subset_right _ (literalsAll_subset args)⟩
  | select span value field form =>
    rw [literals, constants]
    exact List.subset_append_of_subset_left _ value.literals_subset
  | list span items =>
    rw [literals, constants]
    exact literalsAll_subset items

theorem literalsAll_subset (items : List Node) : literalsAll items ⊆ constantsAll items := by
  cases items with
  | nil => exact List.nil_subset _
  | cons item items =>
    rw [literalsAll, constantsAll]
    exact List.append_subset.mpr ⟨List.subset_append_of_subset_left _ item.literals_subset,
      List.subset_append_of_subset_right _ (literalsAll_subset items)⟩

end

/-- One part of a tree after another. -/
theorem eraseDups_uses_append {cs ms us ms' us' : List Constant}
    (h : (cs ++ us).eraseDups = (cs ++ ms).eraseDups)
    (h' : (cs ++ ms ++ us').eraseDups = (cs ++ ms ++ ms').eraseDups) :
    (cs ++ (us ++ us')).eraseDups = (cs ++ (ms ++ ms')).eraseDups := by
  have hmem (c : Constant) : c ∈ cs ++ us ↔ c ∈ cs ++ ms := by
    rw [← List.mem_eraseDups, h, List.mem_eraseDups]
  rw [← List.append_assoc, ← List.append_assoc, ← h', @List.eraseDups_append _ _ _ (cs ++ us),
    @List.eraseDups_append _ _ _ (cs ++ ms), h]
  congr 2
  exact List.filter_congr fun c _ => by simp [hmem c]

mutual

/-- A tree mentions the constants that it uses, and no others. -/
theorem eraseDups_uses (node : Node) {cs known : List Constant} (hk : known ⊆ cs) :
    (cs ++ (node.uses known).map Use.constant).eraseDups = (cs ++ node.constants).eraseDups := by
  cases node with
  | literal span l =>
    rw [uses, constants]
    split
    case isTrue h => rw [List.map_nil, List.append_nil, eraseDups_concat, if_pos (hk h)]
    case isFalse => rfl
  | ident => rfl
  | assign span names value =>
    rw [uses, constants]
    exact value.eraseDups_uses hk
  | call span callee args =>
    rw [uses, constants, List.map_append]
    refine eraseDups_uses_append (callee.eraseDups_uses hk) (eraseDups_usesAll args ?_)
    exact List.append_subset.mpr ⟨List.subset_append_of_subset_left _ hk,
      List.subset_append_of_subset_right _ callee.literals_subset⟩
  | select span value field form =>
    rw [uses, constants, List.map_append]
    exact eraseDups_uses_append (value.eraseDups_uses hk) rfl
  | function span name params body =>
    rw [uses, constants]
    exact body.eraseDups_uses (List.nil_subset _)
  | list span items =>
    rw [uses, constants]
    exact eraseDups_usesAll items hk

theorem eraseDups_usesAll (items : List Node) {cs known : List Constant} (hk : known ⊆ cs) :
    (cs ++ (usesAll known items).map Use.constant).eraseDups =
      (cs ++ constantsAll items).eraseDups := by
  cases items with
  | nil => rfl
  | cons item items =>
    rw [usesAll, constantsAll, List.map_append]
    refine eraseDups_uses_append (item.eraseDups_uses hk) (eraseDups_usesAll items ?_)
    exact List.append_subset.mpr ⟨List.subset_append_of_subset_left _ hk,
      List.subset_append_of_subset_right _ item.literals_subset⟩

end

end Node

/-! ## Constants of instructions -/

namespace Instruction

/-- The position of the constant that an instruction names. -/
def constant? : Instruction → Option ConstantId
  | constant id | field _ id _ => some id
  | argument _ | call _ | enter _ | leave | copy _ => none

/-- The instruction names a constant for a literal or for a field. -/
inductive Names : Instruction → ConstantId → Use → Prop
  | literal (id : ConstantId) (l : Literal) : Names (constant id) id (.literal l)
  | field (value : ValueId) (id : ConstantId) (form : Form) (name : String) :
    Names (field value id form) id (.field name)

/-- The constant that an instruction names is there, and it is the one that is used. -/
def Serves (constants : List Constant) (i : Instruction) (u : Use) : Prop :=
  ∃ id c, i.Names id u ∧ constants[id.toNat]? = some c ∧ u.Decodes c

/-- The instruction names the position of the constant among others. -/
def Uses (cs : List Constant) (i : Instruction) (u : Use) : Prop :=
  u.constant ∈ cs ∧ i.Names (position cs u.constant) u

theorem Uses.append {cs : List Constant} {i : Instruction} {u : Use} (h : i.Uses cs u)
    (ds : List Constant) : i.Uses (cs ++ ds) u :=
  ⟨List.mem_append_left _ h.1, (position_append h.1 ds).symm ▸ h.2⟩

theorem Uses.serves {cs : List Constant} {i : Instruction} {u : Use} (h : i.Uses cs u)
    (hf : Fit cs) : i.Serves cs.eraseDups u :=
  ⟨_, _, h.2, getElem?_position hf h.1, u.decodes_constant⟩

theorem Uses.constant?_eq {cs : List Constant} {i : Instruction} {u : Use} (h : i.Uses cs u) :
    i.constant? = some (position cs u.constant) := by
  obtain ⟨-, h⟩ := h
  generalize position cs u.constant = id at h
  cases h <;> rfl

/-- The constants that have a value in the open scopes, the innermost scope first, after one more
instruction; none if a constant has one already. -/
def note : List (List ConstantId) → Instruction → Option (List (List ConstantId))
  | known, enter _ => some ([] :: known)
  | known, leave => some known.tail
  | own :: outer, constant id => if id ∈ own then none else some ((id :: own) :: outer)
  | [], constant _ => none
  | known, argument _ | known, call _ | known, field .. | known, copy _ => some known

/-- The instruction neither names a constant nor opens or closes a function body. -/
def IsPlain : Instruction → Prop
  | argument _ | call _ | copy _ => True
  | constant _ | field .. | enter _ | leave => False

theorem IsPlain.constant?_eq {i : Instruction} (h : i.IsPlain) : i.constant? = none := by
  cases i with
  | argument | call | copy => rfl
  | constant | field | enter | leave => exact h.elim

theorem foldlM_note_of_isPlain {is : List Instruction} (h : ∀ i ∈ is, i.IsPlain)
    (known : List (List ConstantId)) : is.foldlM note known = some known := by
  induction is with
  | nil => rfl
  | cons i is ih =>
    have hi : note known i = some known := by
      cases i with
      | argument | call | copy => cases known <;> rfl
      | constant | field | enter | leave => exact (h _ List.mem_cons_self).elim
    rw [List.foldlM_cons, hi]
    exact ih fun j hj => h j (List.mem_cons_of_mem _ hj)

end Instruction

/-! ## What an emission gains -/

namespace Emission

variable {s s₁ s' : Emission} {cs ms ms' ls ls' : List Constant}
  {us us' : List Constant → List Use}

/-- The positions of the constants that have a value in the innermost scope. -/
def ids (s : Emission) : List ConstantId := s.scope.literals.map Prod.fst

/-- The constants that have a value in the innermost scope are known. -/
structure Knows (s : Emission) (cs known : List Constant) : Prop where
  subset : known ⊆ cs
  mem_ids : ∀ id, id ∈ s.ids ↔ ∃ c ∈ known, position cs c = id

/-- Instructions that an emission gains. -/
structure Adds (s : Emission) (cs : List Constant) (us : List Use) (is : List Instruction)
    (s' : Emission) : Prop where
  instructions : s'.instructions.toList = s.instructions.toList ++ is
  uses : List.Forall₂ (Instruction.Uses cs) (is.filter (·.constant?.isSome)) us
  once : ∀ outer, is.foldlM Instruction.note (s.ids :: outer) = some (s'.ids :: outer)

theorem Adds.trans {us us' : List Use} {is is' : List Instruction} (h : s.Adds cs us is s₁)
    (h' : s₁.Adds (cs ++ ms) us' is' s') : s.Adds (cs ++ ms) (us ++ us') (is ++ is') s' := by
  refine ⟨?_, ?_, fun outer => ?_⟩
  · rw [h'.instructions, h.instructions, List.append_assoc]
  · rw [List.filter_append]
    exact List.rel_append (h.uses.imp fun _ _ hu => hu.append ms) h'.uses
  · rw [List.foldlM_append, h.once]
    exact h'.once outer

/-- What an emission gains: constants that are mentioned, those of them that are literals of the
innermost scope, and instructions for what was not known there. -/
structure Gathers (s : Emission) (cs ms ls : List Constant) (us : List Constant → List Use)
    (s' : Emission) : Prop where
  around : s'.around = s.around
  pool : s'.pool = .ofConstants (cs ++ ms).eraseDups
  adds : Fit (cs ++ ms) → ∀ {known}, s.Knows cs known →
    s'.Knows (cs ++ ms) (known ++ ls) ∧ ∃ is, s.Adds (cs ++ ms) (us known) is s'

theorem Gathers.trans (h : s.Gathers cs ms ls us s₁) (h' : s₁.Gathers (cs ++ ms) ms' ls' us' s') :
    s.Gathers cs (ms ++ ms') (ls ++ ls') (fun known => us known ++ us' (known ++ ls)) s' := by
  refine ⟨h'.around.trans h.around, by rw [h'.pool, List.append_assoc], fun hf known hk => ?_⟩
  rw [← List.append_assoc] at hf ⊢
  obtain ⟨hk₁, is, hadd⟩ := h.adds hf.of_append hk
  obtain ⟨hk₂, is', hadd'⟩ := h'.adds hf hk₁
  rw [← List.append_assoc]
  exact ⟨hk₂, is ++ is', hadd.trans hadd'⟩

/-- Nothing that has to do with constants. -/
theorem gathers_of_plain {is : List Instruction} (ha : s'.around = s.around) (hp : s'.pool = s.pool)
    (hl : s'.scope.literals = s.scope.literals)
    (hi : s'.instructions.toList = s.instructions.toList ++ is) (his : ∀ i ∈ is, i.IsPlain)
    (hs : s.pool = .ofConstants cs.eraseDups) : s.Gathers cs [] [] (fun _ => []) s' := by
  have hids : s'.ids = s.ids := congrArg (List.map Prod.fst) hl
  refine ⟨ha, by rw [hp, hs, List.append_nil], fun _ known hk => ?_⟩
  rw [List.append_nil, List.append_nil]
  refine ⟨⟨hk.subset, hids ▸ hk.mem_ids⟩, is, hi, ?_, fun outer => ?_⟩
  · rw [List.filter_eq_nil_iff.mpr]
    · exact .nil
    · intro i hmem
      rw [(his i hmem).constant?_eq]
      nofun
  · rw [hids]
    exact Instruction.foldlM_note_of_isPlain his _

theorem Knows.mem_ids_append {known : List Constant} (hk : s.Knows cs known) (ds : List Constant)
    (id : ConstantId) : id ∈ s.ids ↔ ∃ c ∈ known, position (cs ++ ds) c = id := by
  rw [hk.mem_ids]
  refine exists_congr fun c => and_congr_right fun hc => ?_
  rw [position_append (hk.subset hc)]

/-- With positions that fit, a constant has a value just if it is known. -/
theorem Knows.mem_ids_iff {known : List Constant} (hk : s.Knows cs known) {c : Constant}
    (hf : Fit (cs ++ [c])) : position (cs ++ [c]) c ∈ s.ids ↔ c ∈ known := by
  rw [hk.mem_ids_append [c]]
  refine ⟨fun ⟨d, hd, he⟩ => ?_, fun hc => ⟨c, hc, rfl⟩⟩
  rwa [← position_inj hf (List.mem_append_left _ (hk.subset hd)) (by simp) he]

/-- One more constant has a value. -/
theorem Knows.concat {known : List Constant} (hk : s.Knows cs known) {c : Constant}
    (h : ∀ id, id ∈ s'.ids ↔ id ∈ s.ids ∨ id = position (cs ++ [c]) c) :
    s'.Knows (cs ++ [c]) (known ++ [c]) := by
  refine ⟨List.append_subset.mpr ⟨List.subset_append_of_subset_left _ hk.subset,
    List.subset_append_right _ _⟩, fun id => ?_⟩
  rw [h, hk.mem_ids_append [c]]
  simp [or_and_right, exists_or, eq_comm]

theorem withConstant_pool (hs : s.pool = .ofConstants cs.eraseDups) (c : Constant) :
    (s.pool.intern c).1 = position (cs ++ [c]) c ∧
      (Emit.withConstant s c).pool = .ofConstants (cs ++ [c]).eraseDups := by
  have h := Pool.intern_ofConstants cs c
  rw [← hs] at h
  exact ⟨congrArg Prod.fst h, congrArg Prod.snd h⟩

/-- A literal has a value in its scope already, or is given one. -/
theorem gathers_of_literal {span : Span} {l : Literal} {id : ValueId}
    (hs : s.pool = .ofConstants cs.eraseDups) (h : Emit.literal l s = .ok (id, s')) :
    s.Gathers cs [l.constant] [l.constant] (Node.uses · (.literal span l)) s' := by
  obtain ⟨hpos, hpool⟩ := withConstant_pool hs l.constant
  have hmem : l.constant ∈ cs ++ [l.constant] := by simp
  rcases Emit.literal_eq_ok h with ⟨hl, rfl⟩ | ⟨hl, rfl, rfl⟩
  · rw [hpos] at hl
    refine ⟨rfl, hpool, fun hf known hk => ?_⟩
    have hin : position (cs ++ [l.constant]) l.constant ∈ s.ids :=
      List.mem_map.mpr ⟨_, mem_of_lookup_eq_some hl, rfl⟩
    rw [Node.uses, if_pos ((hk.mem_ids_iff hf).mp hin)]
    refine ⟨hk.concat fun id => ?_, [], (List.append_nil _).symm, .nil, fun outer => rfl⟩
    show id ∈ s.ids ↔ _
    rw [or_iff_left_of_imp]
    rintro rfl
    exact hin
  · rw [hpos] at hl ⊢
    refine ⟨rfl, hpool, fun hf known hk => ?_⟩
    have hout : position (cs ++ [l.constant]) l.constant ∉ s.ids := by
      intro hin
      obtain ⟨⟨id, value⟩, he, hid⟩ := List.mem_map.mp hin
      exact bne_iff_ne.mp (List.lookup_eq_none_iff.mp hl _ he) hid.symm
    rw [Node.uses, if_neg (mt (hk.mem_ids_iff hf).mpr hout)]
    refine ⟨hk.concat fun id => ?_, [.constant (position (cs ++ [l.constant]) l.constant)], ?_, ?_,
      fun outer => ?_⟩
    · exact List.mem_cons.trans or_comm
    · exact Array.toList_append
    · exact .cons ⟨hmem, .literal _ l⟩ .nil
    · rw [List.foldlM_cons, Instruction.note, if_neg hout]
      rfl

/-- A field names its constant. -/
theorem gathers_of_field {value : ValueId} {field : String} {form : Form} {id : ValueId}
    (hs : s.pool = .ofConstants cs.eraseDups)
    (h : (do
      let name ← Emit.intern (.ofText field)
      Emit.emitValue (.field value name form)) s = .ok (id, s')) :
    s.Gathers cs [.ofText field] [] (fun _ => [.field field]) s' := by
  obtain ⟨hpos, hpool⟩ := withConstant_pool hs (.ofText field)
  obtain ⟨name, s₁, h₁, h₂⟩ := Emit.bind_eq_ok h
  cases h₁
  cases h₂
  refine ⟨rfl, hpool, fun hf known hk => ?_⟩
  rw [List.append_nil]
  refine ⟨⟨List.subset_append_of_subset_left _ hk.subset, hk.mem_ids_append _⟩,
    [.field value (s.pool.intern (.ofText field)).1 form], ?_, ?_, fun outer => rfl⟩
  · exact Array.toList_push
  · rw [hpos]
    exact .cons ⟨by simp [Use.constant], .field value _ form field⟩ .nil

end Emission

/-! ## Expressions -/

namespace Emit

variable {α β : Type} {ms ms' ls ls' : List Constant} {us us' : List Constant → List Use}

/-- Something that gathers constants. It may fail, but not for want of a constant. -/
structure Gathers (x : Emit α) (ms ls : List Constant) (us : List Constant → List Use) : Prop where
  ok : ∀ {s a s' cs}, s.pool = .ofConstants cs.eraseDups → x s = .ok (a, s') →
    s.Gathers cs ms ls us s'
  error : ∀ {s e}, x s = .error e → ∀ i, e.cause ≠ .missingConstant i

theorem bind_eq_error {x : Emit α} {f : α → Emit β} {s : Emission} {e : CompileError}
    (h : (x >>= f) s = .error e) : x s = .error e ∨ ∃ a s₁, x s = .ok (a, s₁) ∧ f a s₁ = .error e := by
  cases hx : x s with
  | error e' =>
    left
    have he : (x >>= f) s = .error e' := by
      show (x s >>= fun r => f r.1 r.2) = _
      rw [hx]
      rfl
    cases he.symm.trans h
    rfl
  | ok r => exact .inr ⟨r.1, r.2, rfl, (bind_ok hx f).symm.trans h⟩

/-- A literal can always be given a value. -/
theorem literal_ne_error {l : Literal} {s : Emission} {e : CompileError} :
    literal l s ≠ .error e := by
  intro h
  unfold literal at h
  rcases bind_eq_error h with h | ⟨id, s₁, -, h⟩
  · cases h
  rcases bind_eq_error h with h | ⟨s₁, s₂, -, h⟩
  · cases h
  cases hl : s₁.scope.literals.lookup id <;> simp only [hl] at h <;> cases h

namespace Gathers

theorem bind {x : Emit α} {f : α → Emit β} (hx : Gathers x ms ls us)
    (hf : ∀ a, Gathers (f a) ms' ls' us') :
    Gathers (x >>= f) (ms ++ ms') (ls ++ ls') fun known => us known ++ us' (known ++ ls) := by
  refine ⟨fun hs h => ?_, fun h => ?_⟩
  · obtain ⟨a, s₁, h₁, h₂⟩ := bind_eq_ok h
    have hg := hx.ok hs h₁
    exact hg.trans ((hf a).ok hg.pool h₂)
  · rcases bind_eq_error h with h | ⟨a, s₁, -, h⟩
    · exact hx.error h
    · exact (hf a).error h

theorem fail {cause : CompileError.Cause} {span : Span} (hc : ∀ i, cause ≠ .missingConstant i) :
    Gathers (Emit.fail cause span : Emit α) ms ls us :=
  ⟨fun _ h => absurd h fail_ne_ok, fun h => by cases h; exact hc⟩

theorem pure (a : α) : Gathers (Pure.pure a : Emit α) [] [] fun _ => [] := by
  refine ⟨fun hs h => ?_, nofun⟩
  obtain ⟨-, rfl⟩ := pure_eq_ok h
  exact Emission.gathers_of_plain rfl rfl rfl (List.append_nil _).symm (by simp) hs

theorem get : Gathers (MonadState.get : Emit Emission) [] [] fun _ => [] := by
  refine ⟨fun hs h => ?_, nofun⟩
  cases h
  exact Emission.gathers_of_plain rfl rfl rfl (List.append_nil _).symm (by simp) hs

theorem emit {i : Instruction} (hi : i.IsPlain) : Gathers (Emit.emit i) [] [] fun _ => [] := by
  refine ⟨fun hs h => ?_, nofun⟩
  cases h
  exact Emission.gathers_of_plain rfl rfl rfl Array.toList_push (by simpa using hi) hs

theorem allocate : Gathers Emit.allocate [] [] fun _ => [] := by
  refine ⟨fun hs h => ?_, nofun⟩
  cases h
  exact Emission.gathers_of_plain rfl rfl rfl (List.append_nil _).symm (by simp) hs

theorem bindName (name : String) (id : ValueId) :
    Gathers (Emit.bind name id) [] [] fun _ => [] := by
  refine ⟨fun hs h => ?_, nofun⟩
  cases h
  exact Emission.gathers_of_plain rfl rfl rfl (List.append_nil _).symm (by simp) hs

/-- What comes before or after something plain. -/
theorem bind_plain {x : Emit α} {f : α → Emit β} (hx : Gathers x ms ls us)
    (hf : ∀ a, Gathers (f a) [] [] fun _ => []) : Gathers (x >>= f) ms ls us := by
  simpa using hx.bind hf

theorem plain_bind {x : Emit α} {f : α → Emit β} (hx : Gathers x [] [] fun _ => [])
    (hf : ∀ a, Gathers (f a) ms ls us) : Gathers (x >>= f) ms ls us := by
  simpa using hx.bind hf

theorem ite {c : Prop} [Decidable c] {x y : Emit α} (hx : Gathers x ms ls us)
    (hy : Gathers y ms ls us) : Gathers (if c then x else y) ms ls us := by
  split <;> assumption

theorem forM {β : Type} {f : β → Emit PUnit} (hf : ∀ b, Gathers (f b) [] [] fun _ => [])
    (bs : List β) : Gathers (bs.forM f) [] [] fun _ => [] := by
  induction bs with
  | nil => exact .pure _
  | cons b bs ih =>
    exact (hf b).plain_bind fun _ => ih

theorem emitValue {i : Instruction} (hi : i.IsPlain) :
    Gathers (Emit.emitValue i) [] [] fun _ => [] :=
  (emit hi).plain_bind fun _ => allocate

theorem requireFree (name : String) (span : Span) :
    Gathers (Emit.requireFree name span) [] [] fun _ => [] :=
  get.plain_bind fun _ => .ite (.fail (by simp)) (.pure _)

theorem resolve (builtin : String → Option ValueId) (name : String) (span : Span) :
    Gathers (Emit.resolve builtin name span) [] [] fun _ => [] := by
  refine get.plain_bind fun s => ?_
  split
  · exact .pure _
  · split
    · exact .pure _
    · exact .fail (by simp)

theorem requireNew (span : Span) (seen names : List String) :
    Gathers (Emit.requireNew span seen names) [] [] fun _ => [] := by
  induction names generalizing seen with
  | nil => exact .pure _
  | cons name names ih =>
    rw [Emit.requireNew]
    refine .ite (plain_bind (.fail (by simp)) fun _ => ?_) ?_
    all_goals exact (requireFree name span).plain_bind fun _ => ih _

theorem assign (names : List String) (value : ValueId) (span : Span) :
    Gathers (Emit.assign names value span) [] [] fun _ => [] :=
  (requireNew span [] names).plain_bind fun _ =>
    (forM (bindName · value) names).plain_bind fun _ => .pure _

theorem requireField (field : String) (form : Form) (span : Span) :
    Gathers (Emit.requireField field form span) [] [] fun _ => [] := by
  unfold Emit.requireField
  split
  · exact .ite (.pure _) (.fail (by simp))
  · exact .ite (.pure _) (.fail (by simp))

theorem call (callee : ValueId) (args : List ValueId) :
    Gathers (Emit.call callee args) [] [] fun _ => [] :=
  (forM (fun id => emit (i := .argument id) trivial) args).plain_bind fun _ => emitValue trivial

theorem conclude (builtin : String → Option ValueId) (span : Span) (last : Option (ValueId × Bool)) :
    Gathers (Emit.conclude builtin span last) [] [] fun _ => [] := by
  unfold Emit.conclude
  split
  · split
    · exact emitValue trivial
    · exact .fail (by simp)
  · exact get.plain_bind fun _ => .ite (emitValue trivial) (.pure _)

theorem hoist (items : List Node) : Gathers (Emit.hoist items) [] [] fun _ => [] := by
  induction items with
  | nil => exact .pure _
  | cons item items ih =>
    cases item with
    | function span name params body =>
      exact (requireFree name span).plain_bind fun _ => allocate.plain_bind fun id =>
        (bindName name id).plain_bind fun _ => ih.plain_bind fun _ => .pure _
    | _ => exact ih

theorem takeNumber (span : Span) (hoisted : List ValueId) :
    Gathers (Node.takeNumber span hoisted) [] [] fun _ => [] := by
  cases hoisted with
  | nil => exact .fail (by simp)
  | cons => exact .pure _

theorem literal (span : Span) (l : Literal) :
    Gathers (Emit.literal l) [l.constant] [l.constant] (Node.uses · (.literal span l)) :=
  ⟨Emission.gathers_of_literal, fun h => absurd h literal_ne_error⟩

theorem field (value : ValueId) (field : String) (form : Form) :
    Gathers (do
      let name ← Emit.intern (.ofText field)
      Emit.emitValue (.field value name form)) [.ofText field] [] fun _ => [.field field] :=
  ⟨Emission.gathers_of_field, nofun⟩

end Gathers

end Emit

namespace Node

open Emit (Gathers)

variable {builtin : String → Option ValueId}

mutual

/-- What compiling an expression gathers. -/
theorem emit_gathers (node : Node) :
    Gathers (emit builtin node) node.constants node.literals (node.uses ·) := by
  cases node with
  | literal span l => exact .literal span l
  | ident span name => exact .resolve builtin name span
  | assign span names value =>
    exact (emit_gathers value).bind_plain fun id => .assign names id span
  | call span callee args =>
    exact (emit_gathers callee).bind fun id =>
      (emitArgs_gathers args).bind_plain fun ids => .call id ids
  | select span value field form =>
    rw [emit, constants, literals, ← List.append_nil value.literals]
    exact (emit_gathers value).bind fun id =>
      (Gathers.requireField field form span).plain_bind fun _ => .field id field form
  | function span name params body =>
    rw [emit]
    exact .fail (by simp)
  | list span items =>
    exact (emitItems_gathers items).bind_plain fun last => .conclude builtin span last

theorem emitArgs_gathers (args : List Node) :
    Gathers (emitArgs builtin args) (constantsAll args) (literalsAll args) (usesAll · args) := by
  cases args with
  | nil => exact .pure _
  | cons arg args =>
    exact (emit_gathers arg).bind fun _ => (emitArgs_gathers args).bind_plain fun _ => .pure _

theorem emitItems_gathers (items : List Node) :
    Gathers (emitItems builtin items) (constantsAll items) (literalsAll items) (usesAll · items) := by
  match items with
  | [] => exact .pure _
  | [item] =>
    exact (emit_gathers item).bind fun _ => .pure _
  | item :: item' :: items =>
    exact (emit_gathers item).bind fun _ => emitItems_gathers (item' :: items)

end

end Node

end Dataflow
