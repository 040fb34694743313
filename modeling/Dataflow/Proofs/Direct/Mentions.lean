import Dataflow.Proofs.Direct.Order

/-!
# Names that are mentioned

A value reads a function of its scope only where the text of its statement mentions the function, or
mentions a name that was bound to it; and then the text mentioned it where that name was bound. So it
shows in the text of a program whether functions are declared before they are used.

* `Node.Mentions`: a tree mentions a name from outside of it;
* `Node.Refers`, `Node.DeclaresFirst`: functions that mention each other, and programs that declare
  functions before statements mention them;
* `Tables.Settled`: what is known has a property, or stands for it elsewhere;
* `Node.Renders.settled`: what expressions read;
* `Node.RendersFunction.needs`: what functions read;
* **`Node.RendersFunction.declaredFirst`**: scopes of programs that declare functions first.
-/

namespace Dataflow

open Relation (ReflTransGen)

namespace Node

/-! ## Texts -/

mutual

/-- A tree mentions a name that stands for something outside of its scope, where the `own` names have
been bound so far. -/
def Mentions (name : String) (own : List String) : Node → Prop
  | .literal .. => False
  | .ident _ other => other = name ∧ name ∉ own
  | .assign _ _ value | .select _ value _ _ => value.Mentions name own
  | .call _ callee args => callee.Mentions name own ∨ AnyMentions name (own ++ callee.binds) args
  | .function _ _ params body =>
    name ∉ own ∧ body.Mentions name (params ++ functionNames body.bodyItems)
  | .list _ items => AnyMentions name own items

/-- Some of the trees mention a name. What a tree binds is known in those behind it. -/
def AnyMentions (name : String) (own : List String) : List Node → Prop
  | [] => False
  | item :: items => item.Mentions name own ∨ AnyMentions name (own ++ item.binds) items

end

/-- Of the functions declared by statements, `f` mentions `g`. -/
def Refers (items : List Node) (f g : String) : Prop :=
  g ∈ functionNames items ∧ ∃ before span params body after,
    items = before ++ .function span f params body :: after ∧
      (Node.function span f params body).Mentions g (bindsAll before)

/-- No value-producing statement mentions a function before the declarations of that function and of
all functions that can be reached from it. -/
def Ordered (items : List Node) : Prop :=
  ∀ {before item after}, items = before ++ item :: after → item.isFunction = false →
    ∀ {f}, f ∈ functionNames items → item.Mentions f (bindsAll before) →
      ∀ {g}, ReflTransGen (Refers items) f g → g ∈ functionNames before

/-- So it is in every scope of a program. -/
structure DeclaresFirst (root : Node) : Prop where
  outermost : Ordered root.bodyItems
  within : ∀ {span name params body}, .function span name params body ∈ root.subtrees →
    Ordered body.bodyItems

end Node

/-! ## Tables -/

/-- What is known at a point of a scope has a property, or it is what a name stands for outside that
is not among the scope's `own` names. -/
structure Tables.Settled (P : ValueId → Prop) (own : List String) (base : List (String × ValueId))
    (T : Tables) : Prop where
  names : ∀ {name id}, T.names.lookup name = some id →
    P id ∨ name ∉ own ∧ base.lookup name = some id
  literals : ∀ {c id}, T.literals.lookup c = some id → P id

namespace Tables.Settled

variable {P Q : ValueId → Prop} {own : List String} {base : List (String × ValueId)} {T : Tables}

theorem mono (h : T.Settled P own base) (hPQ : ∀ x, P x → Q x) : T.Settled Q own base :=
  ⟨fun hx => (h.names hx).imp_left (hPQ _), fun hx => hPQ _ (h.literals hx)⟩

theorem give (h : T.Settled P own base) (id : ValueId) : (T.give id).Settled P own base :=
  ⟨h.names, h.literals⟩

theorem lookup_bind (known : List (String × ValueId)) (bound : List String) (id : ValueId)
    (name : String) :
    (bound.foldl (fun known name => (name, id) :: known) known).lookup name =
      if name ∈ bound then some id else known.lookup name := by
  induction bound generalizing known with
  | nil => rfl
  | cons other bound ih =>
    rw [List.foldl_cons, ih, List.lookup_cons]
    by_cases hb : name ∈ bound
    · rw [if_pos hb, if_pos (List.mem_cons_of_mem _ hb)]
    · rw [if_neg hb]
      by_cases he : name = other
      · rw [if_pos (he ▸ List.mem_cons_self), he, beq_self_eq_true]
      · rw [if_neg (by simp [he, hb]), beq_false_of_ne he]

theorem bind (h : T.Settled P own base) (bound : List String) {id : ValueId} (hid : P id) :
    (T.bind bound id).Settled P (own ++ bound) base := by
  refine ⟨fun {name x} hx => ?_, h.literals⟩
  rw [Tables.bind, lookup_bind] at hx
  split at hx
  case isTrue =>
    cases hx
    exact .inl hid
  case isFalse hb => exact (h.names hx).imp_right fun hx => ⟨by simp [hx.1, hb], hx.2⟩

end Tables.Settled

/-! ## Expressions -/

section Expressions

variable {builtin : String → Option ValueId} {holds : ConstantId → Constant → Prop}
  {P : ValueId → Prop} {base : List (String × ValueId)} {own : List String} {T T' : Tables}
  {gs : List Given} {id : ValueId}

/-- What values read has a property. -/
def Given.Needs (P : ValueId → Prop) (gs : List Given) : Prop :=
  ∀ id is, .value id is ∈ gs → ∀ x ∈ (Block.steps id is).needs, P x

/-- The numbers of values have a property. -/
def Given.Numbers (P : ValueId → Prop) (gs : List Given) : Prop :=
  ∀ id is, .value id is ∈ gs → P id

theorem Given.Needs.nil : Needs P [] := fun _ _ hg => absurd hg List.not_mem_nil

theorem Given.Needs.append {hs : List Given} (h : Needs P gs) (h' : Needs P hs) :
    Needs P (gs ++ hs) :=
  fun id is hg => (List.mem_append.mp hg).elim (h id is) (h' id is)

theorem Given.Needs.value {is : List Instruction} (h : ∀ x ∈ (Block.steps id is).needs, P x) :
    Needs P [.value id is] := by
  intro id' is' hg
  cases List.mem_singleton.mp hg
  exact h

theorem Given.Numbers.left {hs : List Given} (h : Numbers P (gs ++ hs)) : Numbers P gs :=
  fun id is hg => h id is (List.mem_append_left _ hg)

theorem Given.Numbers.right {hs : List Given} (h : Numbers P (gs ++ hs)) : Numbers P hs :=
  fun id is hg => h id is (List.mem_append_right _ hg)

theorem Concludes.settled (hb : ∀ {name x}, builtin name = some x → P x)
    {last : Option ValueId} (hc : Concludes builtin T last gs id T') (hl : ∀ x ∈ last, P x)
    (hn : Given.Numbers P gs) (hT : T.Settled P own base) :
    P id ∧ Given.Needs P gs ∧ T'.Settled P own base := by
  cases hc with
  | unit hu id =>
    refine ⟨hn _ _ List.mem_cons_self, .value fun x hx => ?_, hT.give id⟩
    obtain rfl : x = _ := by simpa [Block.needs, Instruction.operand?] using hx
    exact hb hu
  | copy v id =>
    refine ⟨hn _ _ List.mem_cons_self, .value fun x hx => ?_, hT.give id⟩
    obtain rfl : x = v := by simpa [Block.needs, Instruction.operand?] using hx
    exact hl x rfl
  | same h => exact ⟨hl id rfl, .nil, hT⟩

namespace Node

mutual

/-- What an expression reads, and what it binds names to, has a property, if what it mentions has. -/
theorem Renders.settled (hb : ∀ {name x}, builtin name = some x → P x) (node : Node)
    {own : List String} {T T' : Tables} {gs : List Given} {id : ValueId}
    (h : node.Renders builtin holds T gs id T') (hn : Given.Numbers P gs)
    (hm : ∀ {name}, node.Mentions name own → ∀ {x}, base.lookup name = some x → P x)
    (hT : T.Settled P own base) :
    P id ∧ Given.Needs P gs ∧ T'.Settled P (own ++ node.binds) base := by
  cases node with
  | literal span l =>
    cases h with
    | known hc hl => exact ⟨hT.literals hl, .nil, by simpa using hT⟩
    | literal hc id =>
      have hid : P id := hn _ _ List.mem_cons_self
      refine ⟨hid, .value nofun, fun hx => ?_, fun hx => ?_⟩
      · simpa using hT.names hx
      · rw [List.lookup_cons] at hx
        split at hx
        · cases hx
          exact hid
        · exact hT.literals hx
  | ident span name =>
    refine ⟨?_, ?_⟩
    · cases h with
      | bound hl => exact (hT.names hl).elim (fun hx => hx) fun hx => hm ⟨rfl, hx.1⟩ hx.2
      | builtin hl hbuiltin => exact hb hbuiltin
    · cases h <;> exact ⟨.nil, by simpa using hT⟩
  | assign span names value =>
    cases h with
    | assign h =>
      obtain ⟨hid, hneeds, hT'⟩ := Renders.settled hb value h hn hm hT
      refine ⟨hid, hneeds, ?_⟩
      rw [binds, ← List.append_assoc]
      exact hT'.bind names hid
  | call span callee args =>
    cases h with
    | call hc ha id =>
      obtain ⟨hcallee, hneeds, hT₁⟩ := Renders.settled hb callee hc hn.left.left
        (fun hx => hm (.inl hx)) hT
      obtain ⟨hargs, hneeds', hT₂⟩ := RendersAll.settled hb args ha hn.left.right
        (fun hx => hm (.inr hx)) hT₁
      refine ⟨hn.right _ _ List.mem_cons_self,
        (hneeds.append hneeds').append (.value fun x hx => ?_), ?_⟩
      · simp only [Block.needs, List.filterMap_append, List.mem_append, List.filterMap_map,
          Function.comp_def, Instruction.operand?, List.filterMap_some, List.filterMap_cons,
          List.filterMap_nil, List.mem_singleton] at hx
        rcases hx with hx | rfl
        · exact hargs x hx
        · exact hcallee
      · rw [binds, ← List.append_assoc]
        exact hT₂.give id
  | select span value field form =>
    cases h with
    | select h hc id =>
      obtain ⟨hv, hneeds, hT'⟩ := Renders.settled hb value h hn.left hm hT
      refine ⟨hn.right _ _ List.mem_cons_self, hneeds.append (.value fun x hx => ?_), hT'.give id⟩
      obtain rfl : x = _ := by simpa [Block.needs, Instruction.operand?] using hx
      exact hv
  | function span name params body => cases h
  | list span items =>
    cases h with
    | list h hc =>
      obtain ⟨hids, hneeds, hT'⟩ := RendersAll.settled hb items h hn.left hm hT
      obtain ⟨hid, hneeds', hT''⟩ := hc.settled hb
        (fun x hx => hids x (List.mem_of_getLast? hx)) hn.right hT'
      exact ⟨hid, hneeds.append hneeds', hT''⟩

theorem RendersAll.settled (hb : ∀ {name x}, builtin name = some x → P x) (nodes : List Node)
    {own : List String} {T T' : Tables} {gs : List Given} {ids : List ValueId}
    (h : RendersAll builtin holds nodes T gs ids T') (hn : Given.Numbers P gs)
    (hm : ∀ {name}, AnyMentions name own nodes → ∀ {x}, base.lookup name = some x → P x)
    (hT : T.Settled P own base) :
    (∀ id ∈ ids, P id) ∧ Given.Needs P gs ∧ T'.Settled P (own ++ bindsAll nodes) base := by
  cases nodes with
  | nil =>
    cases h
    exact ⟨nofun, .nil, by simpa using hT⟩
  | cons node nodes =>
    cases h with
    | cons h hs =>
      obtain ⟨hid, hneeds, hT₁⟩ := Renders.settled hb node h hn.left (fun hx => hm (.inl hx)) hT
      obtain ⟨hids, hneeds', hT₂⟩ := RendersAll.settled hb nodes hs hn.right
        (fun hx => hm (.inr hx)) hT₁
      refine ⟨List.forall_mem_cons.mpr ⟨hid, hids⟩, hneeds.append hneeds', ?_⟩
      rw [bindsAll, ← List.append_assoc]
      exact hT₂

end

end Node

end Expressions

/-! ## Statements -/

/-- Where a part of two lists in a row stands. -/
theorem split_append {α : Type} {as bs cs ds : List α} {x : α} (h : as ++ bs = cs ++ x :: ds) :
    (∃ es, as = cs ++ x :: es) ∨ ∃ es, cs = as ++ es ∧ bs = es ++ x :: ds := by
  rcases List.append_eq_append_iff.mp h with ⟨es, rfl, hbs⟩ | ⟨es, rfl, hds⟩
  · exact .inr ⟨es, rfl, hbs⟩
  · cases es with
    | nil => exact .inr ⟨[], by simp, by simpa using hds.symm⟩
    | cons y es =>
      obtain ⟨rfl, -⟩ := List.cons_eq_cons.mp hds
      exact .inl ⟨es, rfl⟩

namespace Node

theorem functionNames_append (as bs : List Node) :
    functionNames (as ++ bs) = functionNames as ++ functionNames bs := by
  induction as with
  | nil => rfl
  | cons item as ih =>
    cases item with
    | function => exact congrArg _ ih
    | _ => exact ih

/-- What some tree mentions, the trees mention. -/
theorem anyMentions_of_split {name : String} {own : List String} {items above below : List Node}
    {item : Node} (hi : items = above ++ item :: below)
    (h : item.Mentions name (own ++ bindsAll above)) : AnyMentions name own items := by
  induction above generalizing own items with
  | nil =>
    subst hi
    exact .inl (by simpa using h)
  | cons other above ih =>
    subst hi
    exact .inr (ih rfl (by simpa using h))

variable (builtin : String → Option ValueId) (holds : ConstantId → Constant → Prop)

/-- What statements come to that stand behind others: what their values read has a property that
depends on what stands before, and so has what is known where functions are declared, and in the
end. -/
structure Settles (P : List Given → ValueId → Prop) (base : List (String × ValueId))
    (own : List String) (before : List Given) (items : List Node) (gs : List Given)
    (last : Option ValueId) (T : Tables) : Prop where
  last : ∀ x ∈ last, P (before ++ gs) x
  values : ∀ {as id is bs}, gs = as ++ .value id is :: bs → ∀ x ∈ (Block.steps id is).needs,
    ∃ cs, Given.functions cs = [] ∧ P (before ++ as ++ cs) x
  functions : ∀ {as id n bs}, gs = as ++ .function id n :: bs →
    ∃ above span name params body below T, items = above ++ .function span name params body :: below ∧
      (functionNames above).length = (Given.functions as).length ∧
      RendersFunction builtin holds params body T n ∧
      T.Settled (P (before ++ as)) (own ++ bindsAll above) base
  tables : T.Settled (P (before ++ gs)) (own ++ bindsAll items) base

variable {builtin holds}

namespace Settles

variable {P : List Given → ValueId → Prop} {base : List (String × ValueId)} {own : List String}
  {before gs hs : List Given} {items : List Node} {last : Option ValueId} {id : ValueId}
  {T T' : Tables}

/-- Statements behind a function. -/
theorem behind_function {span : Span} {name : String} {params : List String} {body : Node}
    {n : Numbering} (hf : RendersFunction builtin holds params body T n)
    (hT : T.Settled (P before) own base) (hid : P (before ++ .function id n :: gs) id)
    (h : Settles builtin holds P base own (before ++ [.function id n]) items gs last T') :
    Settles builtin holds P base own before (.function span name params body :: items)
      (.function id n :: gs) (some (last.getD id)) T' := by
  obtain ⟨hlast, hvalues, hfunctions, htables⟩ := h
  rw [List.append_assoc] at hlast htables
  refine ⟨fun x hx => ?_, fun {as id' is bs} hgs => ?_, fun {as id' n' bs} hgs => ?_, ?_⟩
  · cases last with
    | none =>
      cases hx
      exact hid
    | some y =>
      cases hx
      exact hlast y rfl
  · cases as with
    | nil => cases hgs
    | cons g as =>
      obtain ⟨rfl, hrest⟩ := List.cons_eq_cons.mp hgs
      simpa using hvalues hrest
  · cases as with
    | nil =>
      cases hgs
      exact ⟨[], span, name, params, body, items, T, rfl, rfl, hf, by simpa using hT⟩
    | cons g as =>
      obtain ⟨rfl, hrest⟩ := List.cons_eq_cons.mp hgs
      obtain ⟨above, span', name', params', body', below, T₁, rfl, hlen, hr, hT₁⟩ :=
        hfunctions hrest
      refine ⟨.function span name params body :: above, span', name', params', body', below, T₁,
        rfl, congrArg (· + 1) hlen, hr, ?_⟩
      simpa using hT₁
  · simpa using htables

/-- Statements behind the values of another. -/
theorem behind_values {item : Node} (hi : item.isFunction = false)
    (hnone : Given.functions gs = []) (hid : P (before ++ (gs ++ hs)) id)
    (hneeds : Given.Needs (P (before ++ gs)) gs)
    (h : Settles builtin holds P base (own ++ item.binds) (before ++ gs) items hs last T') :
    Settles builtin holds P base own before (item :: items) (gs ++ hs) (some (last.getD id)) T' := by
  obtain ⟨hlast, hvalues, hfunctions, htables⟩ := h
  rw [List.append_assoc] at hlast htables
  refine ⟨fun x hx => ?_, fun {as id' is bs} hgs => ?_, fun {as id' n' bs} hgs => ?_, ?_⟩
  · cases last with
    | none =>
      cases hx
      exact hid
    | some y =>
      cases hx
      exact hlast y rfl
  · rcases split_append hgs with ⟨es, rfl⟩ | ⟨es, rfl, hrest⟩
    · rw [Given.functions_append, List.append_eq_nil_iff] at hnone
      refine fun x hx => ⟨.value id' is :: es, hnone.2, ?_⟩
      simpa using hneeds id' is (by simp) x hx
    · simpa using hvalues hrest
  · rcases split_append hgs with ⟨es, rfl⟩ | ⟨es, rfl, hrest⟩
    · rw [Given.functions_append, List.append_eq_nil_iff] at hnone
      cases hnone.2
    · obtain ⟨above, span', name', params', body', below, T₂, rfl, hlen, hr₂, hT₂⟩ :=
        hfunctions hrest
      refine ⟨item :: above, span', name', params', body', below, T₂, rfl, ?_, hr₂, ?_⟩
      · rw [functionNames_of_not_isFunction hi, Given.functions_append, hnone]
        simpa using hlen
      · simpa using hT₂
  · simpa using htables

end Settles

theorem RendersBody.settles {P : List Given → ValueId → Prop} {base : List (String × ValueId)}
    (hmono : ∀ {before gs x}, P before x → P (before ++ gs) x)
    (hb : ∀ {before name x}, builtin name = some x → P before x) {items : List Node}
    {hoisted : List ValueId} {T T' : Tables} {gs before : List Given} {last : Option ValueId}
    {own : List String} (h : RendersBody builtin holds hoisted items T gs last T')
    (hh : ∀ x ∈ hoisted, P (before ++ gs) x)
    (hn : ∀ {as id is bs}, gs = as ++ .value id is :: bs → P (before ++ as ++ [.value id is]) id)
    (hm : ∀ {above item below}, items = above ++ item :: below → item.isFunction = false →
      ∀ {bs}, (Given.functions bs).length = (Given.functions before).length +
          (functionNames above).length → ∀ {name}, item.Mentions name (own ++ bindsAll above) →
        ∀ {x}, base.lookup name = some x → P bs x)
    (hT : T.Settled (P before) own base) :
    Settles builtin holds P base own before items gs last T' := by
  induction items generalizing hoisted T gs before last own with
  | nil =>
    cases h
    refine ⟨nofun, fun hgs => ?_, fun hgs => ?_, ?_⟩
    · simp at hgs
    · simp at hgs
    · simpa using hT
  | cons item items ih =>
    cases h with
    | @function span name params body _ id hoisted _ _ n gs last hf h =>
      refine .behind_function hf hT (hh _ List.mem_cons_self) (ih h ?_ ?_ ?_ (hT.mono fun x => hmono))
      · intro x hx
        simpa using hh x (List.mem_cons_of_mem _ hx)
      · intro as id' is bs hgs
        simpa using @hn (.function id n :: as) id' is bs (congrArg _ hgs)
      · intro above item below hitems hi bs hbs name' hx
        refine @hm (.function span name params body :: above) item below (congrArg _ hitems) hi bs
          ?_ name' (by simpa using hx)
        rw [hbs, Given.functions_append, List.length_append]
        show _ + 1 + _ = _ + (_ + 1)
        omega
    | @value _ _ _ _ T₁ _ gs hs id last hi hr h =>
      have hnone := hr.functions_eq_nil
      have hcount : (Given.functions (before ++ gs)).length = (Given.functions before).length := by
        rw [Given.functions_append, hnone, List.append_nil]
      have hnumbers : Given.Numbers (P (before ++ gs)) gs := by
        intro v is hmem
        obtain ⟨as, bs, rfl⟩ := List.append_of_mem hmem
        simpa using @hmono _ bs _ (@hn as v is (bs ++ hs) (by simp))
      obtain ⟨hid, hneeds, hT₁⟩ := hr.settled hb item hnumbers
        (fun {name} hx => @hm [] item items rfl hi (before ++ gs) (by rw [hcount]; rfl) name
          (by simpa using hx)) (hT.mono fun x hx => hmono hx)
      have hid' : P (before ++ (gs ++ hs)) id := by simpa using @hmono _ hs _ hid
      refine .behind_values hi hnone hid' hneeds (ih h ?_ ?_ ?_ hT₁)
      · intro x hx
        simpa using hh x hx
      · intro as id' is bs hgs
        simpa using @hn (gs ++ as) id' is bs (by rw [hgs, List.append_assoc])
      · intro above item' below hitems hi' bs hbs name' hx
        refine @hm (item :: above) item' below (congrArg _ hitems) hi' bs ?_ name' (by simpa using hx)
        rw [hbs, hcount, functionNames_of_not_isFunction hi]

end Node

/-! ## Functions -/

theorem lookup_zip_reverse {names : List String} {ids : List ValueId} {name : String} {id : ValueId}
    (h : (names.zip ids).reverse.lookup name = some id) : (name, id) ∈ names.zip ids := by
  obtain ⟨as, bs, hz, -⟩ := List.lookup_eq_some_iff.mp h
  exact List.mem_reverse.mp (hz ▸ by simp)

theorem lookup_zip_reverse_none {names : List String} {ids : List ValueId} {name : String}
    (hl : ids.length = names.length) (h : (names.zip ids).reverse.lookup name = none) :
    name ∉ names := by
  intro hmem
  obtain ⟨i, hi, rfl⟩ := List.getElem_of_mem hmem
  have hz := List.lookup_eq_none_iff.mp h (names[i], ids[i])
    (List.mem_reverse.mpr (List.mem_iff_getElem.mpr ⟨i, by simp; omega, by simp⟩))
  simp at hz

/-- At the start of a function, names stand for its parameters and its functions, or for what they
stand for where it is declared. -/
theorem Tables.lookup_enter (T : Tables) {params functions : List String}
    {ids hoisted : List ValueId} (hp : ids.length = params.length) (hf : hoisted.length = functions.length) {name : String}
    {x : ValueId}
    (h : (T.enter (params.zip ids) (functions.zip hoisted)).names.lookup name = some x) :
    (name, x) ∈ functions.zip hoisted ∨ (name, x) ∈ params.zip ids ∨
      name ∉ params ++ functions ∧ T.names.lookup name = some x := by
  rw [Tables.enter, List.lookup_append, List.lookup_append] at h
  cases hfs : (functions.zip hoisted).reverse.lookup name with
  | some y =>
    rw [hfs] at h
    cases h
    exact .inl (lookup_zip_reverse hfs)
  | none =>
    cases hps : (params.zip ids).reverse.lookup name with
    | some y =>
      rw [hfs, hps] at h
      cases h
      exact .inr (.inl (lookup_zip_reverse hps))
    | none =>
      rw [hfs, hps] at h
      refine .inr (.inr ⟨?_, h⟩)
      rw [List.mem_append]
      exact fun hmem => hmem.elim (lookup_zip_reverse_none hp hps) (lookup_zip_reverse_none hf hfs)

namespace Node

variable {builtin : String → Option ValueId} {holds : ConstantId → Constant → Prop}

theorem weight_le_of_mem {item : Node} {items : List Node} (h : item ∈ items) :
    item.weight ≤ weights items := by
  induction items with
  | nil => cases h
  | cons other items ih =>
    rw [weights]
    rcases List.mem_cons.mp h with rfl | h
    · omega
    · have := ih h
      omega

theorem anyMentions_bodyItems {name : String} {own : List String} {body : Node}
    (h : AnyMentions name own body.bodyItems) : body.Mentions name own := by
  cases body with
  | list => exact h
  | _ => exact h.elim (fun hx => hx) nofun

/-- **What a function reads of the scopes around it** has a property, if what its text mentions has,
and what was known where it is declared. -/
theorem RendersFunction.needs (hb : ∀ {name x}, builtin name = some x → x < 0)
    {params : List String} {body : Node} {T : Tables} {n : Numbering} {g : Graph} {P : ValueId → Prop} {own : List String}
    {base : List (String × ValueId)} (h : RendersFunction builtin holds params body T n)
    (hg : n.Covers g)
    (hm : ∀ {name}, name ∉ own → body.Mentions name (params ++ functionNames body.bodyItems) →
      ∀ {x}, base.lookup name = some x → P x)
    (hT : ∀ {name x}, T.names.lookup name = some x → P x ∨ name ∉ own ∧ base.lookup name = some x)
    (id : ValueId) : ∀ x ∈ (Block.function id g).needs, P x := by
  induction hw : body.weight using Nat.strongRecOn generalizing params body T n g P own base id with
  | ind w ih =>
    subst hw
    intro x hx
    obtain ⟨h0, hlt, b, hb', hxb⟩ := Block.mem_needs_function.mp hx
    -- numbers of its own scope do not count
    let P' (x : ValueId) : Prop := 0 ≤ x → x < g.first → P x
    suffices hP : ∀ x ∈ b.needs, P' x from hP x hxb h0 hlt
    have hown {y : ValueId}
        (hy : y ∈ n.params ++ n.hoisted ++ (Given.values n.given).map Prod.fst) : P' y := by
      obtain ⟨k, hk, rfl⟩ := hg.slot_of_mem hy
      intro _ hlt
      rw [Int32.lt_iff_toInt_lt, hg.room.toInt_slot (Nat.le_of_lt hk)] at hlt
      omega
    have hbuiltin {name : String} {y : ValueId} (hy : builtin name = some y) : P' y :=
      fun h0 _ => absurd h0 (Int32.not_le.mpr (hb hy))
    cases h with
    | @intro _ _ _ T₁ T₂ first ids hoisted gs hs last id hids hh hbody hc =>
      have henter : (T.enter (params.zip ids)
          ((functionNames body.bodyItems).zip hoisted)).Settled P'
            (params ++ functionNames body.bodyItems) T.names := by
        refine ⟨fun hx => ?_, nofun⟩
        rcases T.lookup_enter hids hh hx with hx | hx | hx
        · exact .inl (hown (by simp [(List.of_mem_zip hx).2]))
        · exact .inl (hown (by simp [(List.of_mem_zip hx).2]))
        · exact .inr hx
      have hmention {name : String}
          (hx : AnyMentions name (params ++ functionNames body.bodyItems) body.bodyItems)
          {x : ValueId} (hl : T.names.lookup name = some x) : P' x :=
        fun _ _ => (hT hl).elim (fun hx => hx) fun hb => hm hb.1 (anyMentions_bodyItems hx) hb.2
      have hsettles : Settles builtin holds (fun _ => P') T.names
          (params ++ functionNames body.bodyItems) [] body.bodyItems gs last T₁ :=
        hbody.settles (fun hx => hx) hbuiltin (fun x hx => hown (by simp [hx]))
          (fun {as id is bs} hgs => hown (by simp [hgs, Given.values_append, Given.values]))
          (fun {above item below} hitems _ {_} _ {name} hx {x} hl =>
            hmention (anyMentions_of_split hitems hx) hl) henter
      obtain ⟨hlast, hvalues, hfunctions, htables⟩ := hsettles
      obtain ⟨-, hconclude, -⟩ := hc.settled hbuiltin hlast (fun id is hmem => hown (by
        obtain ⟨as, bs, rfl⟩ := List.append_of_mem hmem
        simp [Given.values_append, Given.values])) htables
      obtain ⟨i, hb'⟩ := List.mem_iff_getElem?.mp hb'
      intro x hx
      rcases hg.block_cases hb' with ⟨as, id, is, bs, hn, rfl, -⟩ |
        ⟨as, id, scope, bs, body', hn, rfl, ha, -⟩
      · rcases split_append hn with ⟨es, rfl⟩ | ⟨es, -, rfl⟩
        · obtain ⟨-, -, hP⟩ := hvalues rfl x hx
          exact hP
        · exact hconclude id is (by simp) x hx
      · rcases split_append hn with ⟨es, rfl⟩ | ⟨es, -, rfl⟩
        · obtain ⟨above, span', name', params', inner, below, T', hitems, -, hr, hT'⟩ :=
            hfunctions rfl
          have hmem : .function span' name' params' inner ∈ body.bodyItems := by simp [hitems]
          have hweight := weight_le_of_mem hmem
          rw [weight] at hweight
          have := weights_bodyItems_le body
          refine ih inner.weight (by omega) hr
            ⟨ha, hg.built.body hb', hg.room.body hb', hr.hoisted_eq⟩
            (fun {name} hown' hx {x} hl => ?_) hT'.names id rfl x hx
          exact hmention (anyMentions_of_split hitems ⟨hown', hx⟩) hl
        · have hnone := hc.functions_eq_nil
          rw [Given.functions_append, List.append_eq_nil_iff] at hnone
          cases hnone.2

end Node

/-! ## Scopes -/

namespace Node

variable {builtin : String → Option ValueId} {holds : ConstantId → Constant → Prop}
  {items : List Node} {n : Numbering} {g : Graph}

theorem zip_unique {names : List String} {ids : List ValueId} (hd : ids.Nodup) {a b : String}
    {x : ValueId} (ha : (a, x) ∈ names.zip ids) (hb : (b, x) ∈ names.zip ids) : a = b := by
  obtain ⟨i, hi, he⟩ := List.getElem_of_mem ha
  obtain ⟨j, hj, he'⟩ := List.getElem_of_mem hb
  rw [List.length_zip] at hi hj
  simp only [List.getElem_zip, Prod.mk.injEq] at he he'
  have hij := hd.getElem_inj_iff.mp (he.2.trans he'.2.symm)
  subst hij
  exact he.1.symm.trans he'.1

/-- A function and all functions that it leads to are among the first ones of a body. -/
def Among (items : List Node) (count : Nat) (f : String) : Prop :=
  ∀ g, ReflTransGen (Refers items) f g → g ∈ (functionNames items).take count

theorem Among.lt (hd : (functionNames items).Nodup) {count k : Nat} {f : String}
    (h : Among items count f) (hk : (functionNames items)[k]? = some f) : k < count := by
  obtain ⟨i, hi, he⟩ := List.getElem_of_mem (h f .refl)
  rw [List.length_take] at hi
  rw [List.getElem_take] at he
  obtain ⟨hk, he'⟩ := List.getElem?_eq_some_iff.mp hk
  have := hd.getElem_inj_iff.mp (he.trans he'.symm)
  omega

/-- If functions read what they mention, or what was declared before them with all that it leads to,
a function leads to no more in the graph than it does in the text. -/
theorem Among.lt_of_reaches (hd : (functionNames items).Nodup)
    (hcount : g.functionCount = (functionNames items).length)
    (hlinks : ∀ {j k f f'}, g.Links j k → (functionNames items)[j]? = some f →
      (functionNames items)[k]? = some f' → Refers items f f' ∨ Among items j f')
    {count k l : Nat} {f : String} (h : Among items count f)
    (hk : (functionNames items)[k]? = some f) (hl : g.Reaches k l) : l < count := by
  induction hl using ReflTransGen.head_induction_on generalizing count f with
  | refl => exact h.lt hd hk
  | @head k j hkj _ ih =>
    obtain ⟨f', hf'⟩ : ∃ f', (functionNames items)[j]? = some f' :=
      ⟨_, List.getElem?_eq_getElem (by rw [← hcount]; exact hkj.2.1)⟩
    rcases hlinks hkj hk hf' with hr | ha
    · exact ih (fun _ hx => h _ (.head hr hx)) hf'
    · exact Nat.lt_trans (ih ha hf') (h.lt hd hk)

theorem mem_of_leads {f f' : String} (hf : f ∈ functionNames items)
    (h : ReflTransGen (Refers items) f f') : f' ∈ functionNames items := by
  cases h with
  | refl => exact hf
  | tail _ hr => exact hr.1

/-- Statements that mention nothing before the last function is declared are in order. -/
theorem ordered_of_front (front back : List Node) (hback : functionNames back = [])
    (hfront : ∀ item ∈ front, item.isFunction = false → ∀ name own, ¬ item.Mentions name own) :
    Ordered (front ++ back) := by
  intro before item after hitems hi f hf hm g hl
  have hg := mem_of_leads hf hl
  rw [functionNames_append, hback, List.append_nil] at hg
  have behind (as : List Node) (hbefore : before = front ++ as) : g ∈ functionNames before := by
    rw [hbefore, functionNames_append]
    exact List.mem_append_left _ hg
  rcases List.append_eq_append_iff.mp hitems with ⟨as, hbefore, -⟩ | ⟨bs, hfront', hback'⟩
  · exact behind as hbefore
  · cases bs with
    | nil => exact behind [] (by rw [hfront', List.append_nil, List.append_nil])
    | cons item' bs =>
      obtain ⟨rfl, -⟩ := List.cons_eq_cons.mp hback'
      exact absurd hm (hfront item (by rw [hfront']; simp) hi f _)

/-- Statements that declare no functions are in order. -/
theorem ordered_of_no_functions {items : List Node} (h : functionNames items = []) :
    Ordered items := ordered_of_front [] items h nofun

/-- The function with a number and all that it leads to are among the first ones of a body. -/
def Ready (items : List Node) (hoisted : List ValueId) (count : Nat) (x : ValueId) : Prop :=
  ∀ f, (f, x) ∈ (functionNames items).zip hoisted → Among items count f

/-- The statements of a scope, with what names stand for at its start. -/
structure Opens (builtin : String → Option ValueId) (holds : ConstantId → Constant → Prop)
    (items : List Node) (n : Numbering) (g : Graph) (T : Tables) (gs : List Given)
    (last : Option ValueId) (T' : Tables) : Prop where
  covers : n.Covers g
  negative : ∀ {name x}, builtin name = some x → x < 0
  renders : RendersBody builtin holds n.hoisted items T gs last T'
  given : ∃ hs, n.given = gs ++ hs ∧ Given.functions hs = []
  length : n.hoisted.length = (functionNames items).length
  literals : T.literals = []
  names : ∀ {name x}, T.names.lookup name = some x →
    (name, x) ∈ (functionNames items).zip n.hoisted ∨ x ∈ n.params ∨ x < g.first

namespace Opens

variable {T T' : Tables} {gs : List Given} {last : Option ValueId}
  (h : Opens builtin holds items n g T gs last T')
include h

theorem functionCount_eq : g.functionCount = (functionNames items).length := by
  rw [h.covers.functionCount_eq, h.length]

theorem first_le {x : ValueId} (hx : x ∈ n.hoisted) : 0 ≤ x ∧ g.first ≤ x := by
  have hmem : x ∈ n.params ++ n.hoisted ++ (Given.values n.given).map Prod.fst := by simp [hx]
  obtain ⟨k, hk, rfl⟩ := h.covers.slot_of_mem hmem
  have h0 := (h.covers.room g g.self_mem_levels).1
  rw [Int32.le_iff_toInt_le, Int32.le_iff_toInt_le, h.covers.room.toInt_slot (Nat.le_of_lt hk)]
  exact ⟨Int.add_nonneg h0 (Int.natCast_nonneg _), by omega⟩

theorem distinct : n.hoisted.Nodup ∧ (∀ x ∈ n.params, x ∉ n.hoisted) ∧
    ∀ x ∈ (Given.values n.given).map Prod.fst, x ∉ n.hoisted := by
  obtain ⟨-, -, -, hd, -⟩ := h.covers.agrees
  rw [List.nodup_append, List.nodup_append] at hd
  obtain ⟨⟨-, hh, hp⟩, -, hv⟩ := hd
  exact ⟨hh, fun x hx hx' => hp x hx x hx' rfl,
    fun x hx hx' => hv x (List.mem_append_right _ hx') x hx rfl⟩

theorem function_of_lookup {name : String} {x : ValueId} (hl : T.names.lookup name = some x)
    (hx : x ∈ n.hoisted) : (name, x) ∈ (functionNames items).zip n.hoisted := by
  rcases h.names hl with hz | hp | hlt
  · exact hz
  · exact absurd hx (h.distinct.2.1 x hp)
  · exact absurd (h.first_le hx).2 (Int32.not_le.mpr hlt)

theorem functions_length : (Given.functions gs).length = (functionNames items).length := by
  obtain ⟨hs, hgiven, hnone⟩ := h.given
  rw [← h.length, h.covers.hoisted, hgiven, Given.functions_append, hnone, List.append_nil,
    List.length_map]

/-- What can be read at a point of the body is declared with all that it leads to. -/
theorem settles_ready (ho : Ordered items) :
    Settles builtin holds (fun before => Ready items n.hoisted (Given.functions before).length)
      T.names [] [] items gs last T' := by
  obtain ⟨hs, hgiven, -⟩ := h.given
  have hno {x : ValueId} (hx : x ∉ n.hoisted) (count : Nat) : Ready items n.hoisted count x :=
    fun _ hf => absurd (List.of_mem_zip hf).2 hx
  refine h.renders.settles (fun {before gs x} hx f hf f' hl => ?_) (fun hb => hno ?_ _)
    (fun x _ f hf f' hl => ?_) (fun {as id is bs} hgs => hno ?_ _)
    (fun {above item below} hitems hi {bs} hbs {name} hm {x} hl f hf f' hlead => ?_)
    ⟨fun hl => .inr ⟨List.not_mem_nil, hl⟩, fun hl => by rw [h.literals] at hl; cases hl⟩
  · rw [Given.functions_append, List.length_append]
    exact (List.take_prefix_take_left (Nat.le_add_right _ _)).subset (hx f hf f' hl)
  · exact fun hx => absurd (h.first_le hx).1 (Int32.not_le.mpr (h.negative hb))
  · rw [List.nil_append, h.functions_length, List.take_length]
    exact mem_of_leads (List.of_mem_zip hf).1 hl
  · refine h.distinct.2.2 id ?_
    simp [hgiven, hgs, Given.values_append, Given.values]
  · have hz := h.function_of_lookup hl (List.of_mem_zip hf).2
    obtain rfl := zip_unique h.distinct.1 hf hz
    have hmem := ho hitems hi (List.of_mem_zip hf).1 (by simpa using hm) hlead
    have hcount : (Given.functions bs).length = (functionNames above).length := by
      simpa [Given.functions] using hbs
    rw [hcount, hitems, functionNames_append, List.take_left]
    exact hmem

/-- The statement that declares a function of the level. -/
theorem functions_split {as bs : List Given} {id : ValueId} {scope : Numbering}
    (hn : n.given = as ++ .function id scope :: bs) :
    ∃ cs, gs = as ++ .function id scope :: cs := by
  obtain ⟨hs, hgiven, hnone⟩ := h.given
  rcases split_append (hgiven.symm.trans hn) with hgs | ⟨es, -, rfl⟩
  · exact hgs
  · rw [Given.functions_append, List.append_eq_nil_iff] at hnone
    cases hnone.2

theorem mem_zip {k : Nat} {x : ValueId} {f : String} (hk : (functionNames items)[k]? = some f)
    (hm : g.Makes x k) : (f, x) ∈ (functionNames items).zip n.hoisted := by
  obtain ⟨hlt, rfl⟩ := List.getElem?_eq_some_iff.mp hk
  have hlt' : k < n.hoisted.length := by rwa [h.length]
  refine List.mem_iff_getElem.mpr ⟨k, by simp; omega, ?_⟩
  rw [List.getElem_zip, h.covers.hoisted_getElem hlt', ← hm.eq]

/-- A function reads what it mentions, or what was declared before it with all that it leads to. -/
theorem links (ho : Ordered items) {j k : Nat} {f f' : String} (hjk : g.Links j k)
    (hj : (functionNames items)[j]? = some f) (hk : (functionNames items)[k]? = some f') :
    Refers items f f' ∨ Among items j f' := by
  obtain ⟨hjc, -, b, hb, x, hx, hm⟩ := hjk
  have hz := h.mem_zip hk hm
  rcases h.covers.block_cases hb with ⟨as, id, is, bs, -, -, rfl⟩ |
    ⟨as, id, scope, bs, body, hn, rfl, ha, rfl⟩
  · omega
  · obtain ⟨cs, hgs⟩ := h.functions_split hn
    obtain ⟨above, span, name, params, inner, below, T₁, hitems, hlen, hr, hT₁⟩ :=
      (h.settles_ready ho).functions hgs
    obtain rfl : name = f := by
      rw [hitems, functionNames_append, ← hlen, List.getElem?_append_right (Nat.le_refl _),
        Nat.sub_self] at hj
      exact Option.some.inj hj
    have hneeds := hr.needs h.negative
      ⟨ha, h.covers.built.body hb, h.covers.room.body hb, hr.hoisted_eq⟩
      (P := fun x => Ready items n.hoisted (Given.functions as).length x ∨
        ∃ f', (f', x) ∈ (functionNames items).zip n.hoisted ∧ Refers items name f')
      (fun {other} hown hmention {y} hl => by
        by_cases hy : y ∈ n.hoisted
        · have hz := h.function_of_lookup hl hy
          exact .inr ⟨other, hz, (List.of_mem_zip hz).1, above, span, params, inner, below, hitems,
            by simpa using hown, hmention⟩
        · exact .inl fun f hf => absurd (List.of_mem_zip hf).2 hy)
      (fun hl => (hT₁.names hl).imp_left .inl) id x hx
    rcases hneeds with hready | ⟨f'', hz', hr⟩
    · exact .inr (hready f' hz)
    · obtain rfl := zip_unique h.distinct.1 hz hz'
      exact .inl hr

/-- A value of the body reads functions that are declared before it with all that they lead to. -/
theorem level (hd : (functionNames items).Nodup) (ho : Ordered items) {before after : List Given}
    {id : ValueId} {is : List Instruction} (hn : n.given = before ++ .value id is :: after)
    {k l : Nat} (hk : k < g.functionCount)
    (hread : g.Reads (g.functionCount + (Given.values before).length) k) (hl : g.Reaches k l) :
    l < (Given.functions before).length := by
  obtain ⟨hs, hgiven, hnone⟩ := h.given
  rcases split_append (hgiven.symm.trans hn) with ⟨es, hgs⟩ | ⟨es, rfl, -⟩
  · obtain ⟨b, hb, x, hx, hm⟩ := hread
    obtain rfl : Block.steps id is = b := Option.some.inj ((h.covers.steps hn).symm.trans hb)
    obtain ⟨cs, hcs, hready⟩ := (h.settles_ready ho).values hgs x hx
    rw [List.nil_append, Given.functions_append, hcs, List.append_nil] at hready
    obtain ⟨f, hf⟩ : ∃ f, (functionNames items)[k]? = some f :=
      ⟨_, List.getElem?_eq_getElem (by rwa [← h.functionCount_eq])⟩
    exact Among.lt_of_reaches hd h.functionCount_eq (h.links ho) (hready f (h.mem_zip hf hm)) hf hl
  · -- the value of the body stands behind all functions
    have hlt := hl.isFunction hk
    rw [h.functionCount_eq, ← h.functions_length] at hlt
    rw [Given.functions_append, List.length_append]
    omega

/-- What is known at a point of the body has a number that was given out before. -/
theorem settles_lower : Settles builtin holds
    (fun before x => x.toInt < g.first.toInt +
      (n.params.length + n.hoisted.length + (Given.values before).length : Nat))
    [] [] [] items gs last T' := by
  have h0 := (h.covers.room g g.self_mem_levels).1
  have hparams := h.covers.params
  obtain ⟨hs, hgiven, -⟩ := h.given
  have hoisted {x : ValueId} (hx : x ∈ n.hoisted) :
      x.toInt < g.first.toInt + (n.params.length + n.hoisted.length : Nat) := by
    obtain ⟨k, hk, rfl⟩ := List.getElem_of_mem hx
    have hcount := h.covers.functionCount_eq
    have hle := g.functionCount_le
    rw [h.covers.hoisted_getElem hk,
      h.covers.room.toInt_slot (by unfold Level.slotCount; omega)]
    omega
  refine h.renders.settles (fun {before gs x} hx => ?_) (fun hb => ?_) (fun x hx => ?_)
    (fun {as id is bs} hgs => ?_)
    (fun {_ _ _} _ _ {_} _ {_} _ {_} hl => by cases hl)
    ⟨fun hl => .inl ?_, fun hl => by rw [h.literals] at hl; cases hl⟩
  · rw [Given.values_append, List.length_append]
    omega
  · have := Int32.lt_iff_toInt_lt.mp (h.negative hb)
    rw [Int32.toInt_zero] at this
    omega
  · have := hoisted hx
    omega
  · have hn : n.given = as ++ .value id is :: (bs ++ hs) := by rw [hgiven, hgs]; simp
    have hlt := (List.getElem?_eq_some_iff.mp (h.covers.steps hn)).1
    have hid : id = _ := h.covers.built.level.id_eq (h.covers.steps hn)
    have hcount := h.covers.functionCount_eq
    rw [hid, Graph.base_add, h.covers.room.toInt_slot (by unfold Level.slotCount; omega)]
    simp [Given.values_append, Given.values]
    omega
  · rcases h.names hl with hz | hp | hlt
    · have := hoisted (List.of_mem_zip hz).2
      simpa [Given.values] using this
    · obtain ⟨k, hk, rfl⟩ := List.getElem_of_mem hp
      rw [h.covers.params_getElem hk, h.covers.room.toInt_slot (by unfold Level.slotCount; omega)]
      omega
    · have := Int32.lt_iff_toInt_lt.mp hlt
      omega

end Opens

theorem mem_subtrees_of_bodyItems {t body : Node} (h : t ∈ subtreesAll body.bodyItems) :
    t ∈ body.subtrees := by
  cases body with
  | list span items =>
    rw [subtrees]
    exact List.mem_cons_of_mem _ h
  | _ => simpa [bodyItems, subtreesAll] using h

/-- **Scopes of a program that declares functions first declare them before they are used.** -/
theorem RendersFunction.declaredFirst (hb : ∀ {name x}, builtin name = some x → x < 0)
    {params : List String} {body : Node} {T : Tables}
    (h : RendersFunction builtin holds params body T n) (hg : n.Covers g)
    (hT : ∀ {name x}, T.names.lookup name = some x → x < g.first)
    (hd : (functionNames body.bodyItems).Nodup) (ho : Ordered body.bodyItems)
    (hwithin : ∀ span name params inner, .function span name params inner ∈ body.subtrees →
      (functionNames inner.bodyItems).Nodup ∧ Ordered inner.bodyItems) : n.DeclaredFirst g := by
  induction hw : body.weight using Nat.strongRecOn generalizing params body T n g with
  | ind w ih =>
    subst hw
    cases h with
    | @intro _ _ _ T₁ T₂ first ids hoisted gs hs last id hids hh hbody hc =>
      have hopens : Opens builtin holds body.bodyItems ⟨first, ids, hoisted, gs ++ hs, id⟩ g
          (T.enter (params.zip ids) ((functionNames body.bodyItems).zip hoisted)) gs last T₁ := by
        refine ⟨hg, hb, hbody, ⟨hs, rfl, hc.functions_eq_nil⟩, hh, rfl, fun hl => ?_⟩
        rcases T.lookup_enter hids hh hl with hz | hz | ⟨-, hl⟩
        · exact .inl hz
        · exact .inr (.inl (List.of_mem_zip hz).2)
        · exact .inr (.inr (hT hl))
      refine ⟨fun hn _ hk hread _ hl => hopens.level hd ho hn hk hread hl,
        fun {i id' scope inner} hi hb' => ?_⟩
      obtain ⟨as, bs, hn, rfl⟩ := Given.split_function hi
      obtain ⟨cs, hgs⟩ := hopens.functions_split hn
      obtain ⟨above, span, name, params', inner', below, T', hitems, -, hr, hT'⟩ :=
        hopens.settles_lower.functions hgs
      obtain ⟨inner₁, hb₁, hcovers⟩ := hg.body hn hr.hoisted_eq
      obtain ⟨-, rfl⟩ := (Block.function.injEq ..).mp (Option.some.inj (hb'.symm.trans hb₁))
      have hmem : .function span name params' inner' ∈ body.bodyItems := by simp [hitems]
      have hweight := weight_le_of_mem hmem
      rw [weight] at hweight
      have := weights_bodyItems_le body
      have hsub {t : Node} (ht : t ∈ (Node.function span name params' inner').subtrees) :
          t ∈ body.subtrees := mem_subtrees_of_bodyItems (mem_subtreesAll.mpr ⟨_, hmem, ht⟩)
      have hown := hwithin _ _ _ _ (hsub (self_mem_subtrees _))
      refine ih inner'.weight (by omega) hr hcovers (fun hl => ?_) hown.1 hown.2
        (fun _ _ _ _ hx => hwithin _ _ _ _ (hsub (by
          rw [subtrees]
          exact List.mem_cons_of_mem _ hx))) rfl
      have hlt := (hT'.names hl).resolve_right fun hx => by cases hx.2
      have hvalues := hg.values_le hn
      have hcount := hg.functionCount_eq
      have hparams := hg.params
      dsimp only at hcount hparams
      rw [Int32.lt_iff_toInt_lt, hg.body_first hn hcovers.agrees,
        hg.room.toInt_slot (by unfold Level.slotCount; dsimp only; omega)]
      simpa using hlt

end Node

end Dataflow
