import Dataflow.Proofs.Grammar.Boundaries
import Dataflow.Proofs.Source.Climb
import Dataflow.Proofs.Source.Subtrees

/-!
# Trees and errors in a text

Every node of a program has a span of the text, and so has every error. Operators take their spans
from their operands, which come one behind the other.

* `Span.In`: a span of whole characters between two offsets;
* `Node.In`: a tree all of whose spans are right;
* `Node.Row`: trees one behind the other;
* `Lands`: a result with a property, or an error in the text;
* `Item.Path`: the items of an expression from one offset to another;
* **`expressionOf_lands`**: the tree of such an expression.
-/

namespace Dataflow

variable {text : List Char} {lo lo' mid hi hi' : Nat}

/-! ## Spans -/

/-- A span of whole characters between two offsets. -/
structure Span.In (text : List Char) (lo hi : Nat) (s : Span) : Prop where
  lo_le : lo ≤ s.start
  start_le : s.start ≤ s.stop
  le_hi : s.stop ≤ hi
  start : Boundary text s.start
  stop : Boundary text s.stop

namespace Span.In

variable {s s' : Span}

theorem mono (h : s.In text lo hi) (hlo : lo' ≤ lo) (hhi : hi ≤ hi') : s.In text lo' hi' :=
  ⟨hlo.trans h.lo_le, h.start_le, h.le_hi.trans hhi, h.start, h.stop⟩

theorem le (h : s.In text lo hi) : lo ≤ hi := h.lo_le.trans (h.start_le.trans h.le_hi)

/-- A span of whole characters is in the text. -/
theorem all (h : s.In text lo hi) : s.In text 0 (sizeOfChars text) :=
  ⟨Nat.zero_le _, h.start_le, h.stop.le_size, h.start, h.stop⟩

theorem cover (h : s.In text lo mid) (h' : s'.In text mid hi) : (s.cover s').In text lo hi :=
  ⟨h.lo_le, h.start_le.trans (h.le_hi.trans h'.lo_le |>.trans h'.start_le), h'.le_hi, h.start, h'.stop⟩

/-- From the start of a span to an offset behind it. -/
theorem upTo (h : s.In text lo mid) (hm : mid ≤ hi) (hb : Boundary text hi) :
    Span.In text lo hi ⟨s.start, hi⟩ :=
  ⟨h.lo_le, h.start_le.trans (h.le_hi.trans hm), Nat.le_refl _, h.start, hb⟩

end Span.In

/-! ## Trees -/

/-- What is asked of one node: its span is in the text, the text of a name is the name, and statements
come one behind the other. -/
def Node.OnText (text : List Char) (node : Node) : Prop :=
  node.span.In text 0 (sizeOfChars text) ∧
  match node with
  | .ident span name => span.slice (String.ofList text) = name
  | .list _ items => items.Pairwise fun a b => a.span.stop < b.span.start
  | _ => True

/-- A tree between two offsets, all of whose spans are right. -/
structure Node.In (text : List Char) (lo hi : Nat) (node : Node) : Prop where
  span : node.span.In text lo hi
  subtrees : ∀ t ∈ node.subtrees, t.OnText text

/-- Trees between two offsets, one behind the other. -/
structure Node.Row (text : List Char) (lo hi : Nat) (nodes : List Node) : Prop where
  forall_in : ∀ node ∈ nodes, node.In text lo hi
  pairwise : nodes.Pairwise fun a b => a.span.stop < b.span.start

namespace Node

theorem In.mono {node : Node} (h : node.In text lo hi) (hlo : lo' ≤ lo) (hhi : hi ≤ hi') :
    node.In text lo' hi' := ⟨h.span.mono hlo hhi, h.subtrees⟩

theorem Row.mono {nodes : List Node} (h : Row text lo hi nodes) (hlo : lo' ≤ lo) (hhi : hi ≤ hi') :
    Row text lo' hi' nodes := ⟨fun n hn => (h.forall_in n hn).mono hlo hhi, h.pairwise⟩

theorem Row.nil : Row text lo hi [] := ⟨by simp, .nil⟩

theorem Row.single {node : Node} (h : node.In text lo hi) : Row text lo hi [node] :=
  ⟨by simpa using h, List.pairwise_singleton ..⟩

theorem Row.append {mid' : Nat} {nodes nodes' : List Node} (h : Row text lo mid nodes)
    (h' : Row text mid' hi nodes') (hlo : lo ≤ mid') (hlt : mid < mid') (hhi : mid ≤ hi) :
    Row text lo hi (nodes ++ nodes') := by
  refine ⟨List.forall_mem_append.mpr ⟨(h.mono (Nat.le_refl _) hhi).forall_in,
    (h'.mono hlo (Nat.le_refl _)).forall_in⟩, List.pairwise_append.mpr ⟨h.pairwise, h'.pairwise, ?_⟩⟩
  intro a ha b hb
  have hstop := (h.forall_in a ha).span.le_hi
  have hstart := (h'.forall_in b hb).span.lo_le
  omega

theorem Row.subtrees {nodes : List Node} (h : Row text lo hi nodes) :
    ∀ t ∈ subtreesAll nodes, t.OnText text := by
  intro t ht
  obtain ⟨node, hn, ht⟩ := mem_subtreesAll.mp ht
  exact (h.forall_in node hn).subtrees t ht

section Nodes

variable {span place : Span} {value left right : Node} {items : List Node}

theorem in_literal (h : span.In text lo hi) (l : Literal) : (literal span l).In text lo hi :=
  ⟨h, by
    rw [Node.subtrees, List.forall_mem_singleton]
    exact ⟨h.all, trivial⟩⟩

theorem in_ident (h : span.In text lo hi) {name : String}
    (hn : span.slice (String.ofList text) = name) : (ident span name).In text lo hi :=
  ⟨h, by
    rw [Node.subtrees, List.forall_mem_singleton]
    exact ⟨h.all, hn⟩⟩

theorem in_assign (h : span.In text lo hi) (hv : value.In text lo hi) (names : List String) :
    (assign span names value).In text lo hi :=
  ⟨h, by
    rw [Node.subtrees, List.forall_mem_cons]
    exact ⟨⟨h.all, trivial⟩, hv.subtrees⟩⟩

theorem in_call (h : span.In text lo hi) (hv : value.In text lo' hi') {args : List Node}
    {m m' : Nat} (ha : Row text m m' args) : (call span value args).In text lo hi :=
  ⟨h, by
    rw [Node.subtrees, List.forall_mem_cons, List.forall_mem_append]
    exact ⟨⟨h.all, trivial⟩, hv.subtrees, ha.subtrees⟩⟩

theorem in_select (h : span.In text lo hi) (hv : value.In text lo' hi') (field : String)
    (form : Form) : (select span value field form).In text lo hi :=
  ⟨h, by
    rw [Node.subtrees, List.forall_mem_cons]
    exact ⟨⟨h.all, trivial⟩, hv.subtrees⟩⟩

theorem in_list (h : span.In text lo hi) (hs : Row text lo' hi' items) :
    (list span items).In text lo hi :=
  ⟨h, by
    rw [Node.subtrees, List.forall_mem_cons]
    exact ⟨⟨h.all, hs.pairwise⟩, hs.subtrees⟩⟩

theorem in_function (h : span.In text lo hi) (hv : value.In text lo' hi') (name : String)
    (params : List String) : (function span name params value).In text lo hi :=
  ⟨h, by
    rw [Node.subtrees, List.forall_mem_cons]
    exact ⟨⟨h.all, trivial⟩, hv.subtrees⟩⟩

theorem in_ofUnary (hp : place.In text lo mid) (hv : value.In text mid hi) (op : String) :
    (ofUnary op place value).In text lo hi :=
  in_call (hp.cover hv.span) (in_select hp hv op .unary) (Row.nil : Row text 0 0 [])

theorem in_ofBinary {mid' : Nat} (hl : left.In text lo mid) (hp : place.In text mid mid')
    (hr : right.In text mid' hi) (op : String) : (left.ofBinary op place right).In text lo hi := by
  have hle := hp.le
  exact in_call (hl.span.cover (hr.span.mono hle (Nat.le_refl _))) (in_select hp hl op .binary)
    (.single hr)

theorem in_ofCall (hv : value.In text lo mid) (ha : Row text mid hi items) (hm : mid ≤ hi)
    (hb : Boundary text hi) : (value.ofCall items hi).In text lo hi :=
  in_call (hv.span.upTo hm hb) hv ha

theorem in_ofField (hv : value.In text lo mid) (hm : mid ≤ hi) (hb : Boundary text hi)
    (field : String) : (value.ofField field hi).In text lo hi :=
  in_select (hv.span.upTo hm hb) hv field .member

end Nodes

end Node

/-! ## Results -/

/-- An error that reading can end with: its span is in the text, and it is not about a tree that the
grammar does not produce. -/
structure SourceError.OnText (text : List Char) (e : SourceError) : Prop where
  span : e.span.In text 0 (sizeOfChars text)
  wellFormed : ∀ what, e.cause ≠ .malformed what

/-- A result with a property, or an error in the text. -/
def Lands {α : Type} (text : List Char) (p : α → Prop) : Except SourceError α → Prop
  | .ok a => p a
  | .error e => e.OnText text

namespace Lands

variable {α β : Type} {p : α → Prop} {q : β → Prop} {x : Except SourceError α}

theorem mono {p' : α → Prop} (h : Lands text p x) (hp : ∀ a, p a → p' a) : Lands text p' x := by
  cases x with
  | ok a => exact hp a h
  | error e => exact h

theorem bind {f : α → Except SourceError β} (h : Lands text p x)
    (hf : ∀ a, p a → Lands text q (f a)) : Lands text q (x >>= f) := by
  cases x with
  | ok a => exact hf a h
  | error e => exact h

end Lands

/-! ## Expressions -/

/-- Items from one offset to another. An operand is expected at the start, or not, and likewise at the
end. -/
inductive Item.Path (text : List Char) : Bool → Nat → List Item → Bool → Nat → Prop
  | nil {e lo hi} (h : lo ≤ hi) : Path text e lo [] e hi
  | operand {e lo mid hi node items} (hn : node.In text lo mid) (h : Path text false mid items e hi) :
    Path text true lo (.operand node :: items) e hi
  | unary {e lo mid hi op span items} (hs : span.In text lo mid) (h : Path text true mid items e hi) :
    Path text true lo (.unary op span :: items) e hi
  | binary {e lo mid hi op strength span items} (hs : span.In text lo mid)
    (h : Path text true mid items e hi) : Path text false lo (.binary op strength span :: items) e hi
  | call {e lo stop hi args items} (ha : Node.Row text lo stop args) (hs : lo ≤ stop)
    (hb : Boundary text stop) (h : Path text false stop items e hi) :
    Path text false lo (.call args stop :: items) e hi
  | field {e lo stop hi name items} (hs : lo ≤ stop) (hb : Boundary text stop)
    (h : Path text false stop items e hi) : Path text false lo (.field name stop :: items) e hi

namespace Item

theorem Path.mono {e e' : Bool} {items : List Item} (h : Path text e lo items e' hi)
    (hlo : lo' ≤ lo) : Path text e lo' items e' hi := by
  cases h with
  | nil h => exact .nil (hlo.trans h)
  | operand hn h => exact .operand (hn.mono hlo (Nat.le_refl _)) h
  | unary hs h => exact .unary (hs.mono hlo (Nat.le_refl _)) h
  | binary hs h => exact .binary (hs.mono hlo (Nat.le_refl _)) h
  | call ha hs hb h => exact .call (ha.mono hlo (Nat.le_refl _)) (hlo.trans hs) hb h
  | field hs hb h => exact .field (hlo.trans hs) hb h

theorem Path.append {e e' e'' : Bool} {items items' : List Item} (h : Path text e lo items e' mid)
    (h' : Path text e' mid items' e'' hi) : Path text e lo (items ++ items') e'' hi := by
  induction h with
  | nil hle => exact h'.mono hle
  | operand hn _ ih => exact .operand hn (ih h')
  | unary hs _ ih => exact .unary hs (ih h')
  | binary hs _ ih => exact .binary hs (ih h')
  | call ha hs hb _ ih => exact .call ha hs hb (ih h')
  | field hs hb _ ih => exact .field hs hb (ih h')

/-- **Climbing never gets stuck**, and what it builds is in its place. -/
theorem climbs_grows_path (k : Nat) : ∀ items : List Item, items.length = k →
    (∀ {lo}, Path text true lo items false hi → ∀ floor, ∃ node rest mid,
      climbs floor items = some (node, rest) ∧ node.In text lo mid ∧ Path text false mid rest false hi) ∧
    ∀ {lo mid left}, left.In text lo mid → Path text false mid items false hi → ∀ floor,
      ∃ node rest mid', grows floor left items = some (node, rest) ∧ node.In text lo mid' ∧
        Path text false mid' rest false hi := by
  induction k using Nat.strongRecOn with
  | ind k ih =>
    intro items hk
    cases items with
    | nil =>
      constructor
      · intro lo h
        cases h
      · intro lo mid left hl h floor
        exact ⟨left, [], mid, grows_nil .., hl, h⟩
    | cons item items =>
      have hlt : items.length < k := hk ▸ Nat.lt_succ_self _
      obtain ⟨ihclimbs, ihgrows⟩ := ih items.length hlt items rfl
      constructor
      · intro lo h floor
        cases h with
        | operand hn h =>
          rw [climbs_operand]
          exact ihgrows hn h floor
        | unary hs h =>
          obtain ⟨inner, rest, mid, hc, hi, hr⟩ := ihclimbs h (unaryStrength - 1)
          rw [climbs_unary, hc, Option.bind_some]
          exact (ih rest.length ((length_climbs hc).trans hlt) rest rfl).2 (Node.in_ofUnary hs hi _)
            hr floor
      · intro lo mid left hl h floor
        cases h with
        | @binary _ _ _ _ op strength span _ hs h =>
          rw [grows_binary]
          split
          · obtain ⟨right, rest, mid, hc, hi, hr⟩ := ihclimbs h strength
            rw [hc, Option.bind_some]
            exact (ih rest.length ((length_climbs hc).trans hlt) rest rfl).2
              (Node.in_ofBinary hl hs hi op) hr floor
          · exact ⟨left, _, mid, rfl, hl, .binary hs h⟩
        | call ha hs hb h =>
          rw [grows_call]
          exact ihgrows (Node.in_ofCall hl ha hs hb) h floor
        | field hs hb h =>
          rw [grows_field]
          exact ihgrows (Node.in_ofField hl hs hb _) h floor

theorem Path.le {e e' : Bool} {items : List Item} (h : Path text e lo items e' hi) : lo ≤ hi := by
  induction h with
  | nil h => exact h
  | operand hn _ ih => exact hn.span.le.trans ih
  | unary hs _ ih | binary hs _ ih => exact hs.le.trans ih
  | call _ hs _ _ ih | field hs _ _ ih => exact hs.trans ih

end Item

/-- **The tree of an expression** is between the offsets of its items. -/
theorem expressionOf_lands {items : List Item} (h : Item.Path text true lo items false hi) (span : Span) :
    Lands text (Node.In text lo hi) (expressionOf span items) := by
  obtain ⟨node, rest, mid, hc, hn, hr⟩ := (Item.climbs_grows_path items.length items rfl).1 h 0
  have ht : Item.tree? items = some node := by
    rw [Item.climbs, Option.map_eq_some_iff] at hc
    obtain ⟨x, hx, he⟩ := hc
    rw [Item.tree?, hx, Option.map_some]
    exact congrArg (fun x => some x.1) he
  rw [expressionOf, ht]
  exact hn.mono (Nat.le_refl _) hr.le

end Dataflow
