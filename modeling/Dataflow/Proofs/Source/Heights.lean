import Dataflow.Proofs.Source.Limits

/-!
# Heights of program trees

Levels of nesting are not all that makes a program tree high: every item of an expression can add to
the height of its tree, and a limit on nesting says nothing of the number of items.

* `Node.height`, `Tree.height`, `Tree.width`: heights, and the longest expression of a match;
* `Pattern.rules`: the rules whose matches are part of a match;
* `Tree.height_le_of_outcome`: matches are not much higher than they are nested deeply;
* **`Node.height_le_of_parseWithin`**: the height of a program is bounded by the limit and the longest expression;
* **`Node.not_bounded_by_limit`**: it is not bounded by the limit alone.
-/

namespace Dataflow

open Grammar Pattern Rule

/-! ## Heights -/

namespace Node

mutual

/-- The height of a tree, which is how deeply a recursion over it goes. -/
def height : Node → Nat
  | list _ items => heights items + 1
  | call _ callee args => max (height callee) (heights args) + 1
  | assign _ _ inner | select _ inner _ _ | function _ _ _ inner => height inner + 1
  | ident .. | literal .. => 1

/-- The height of the highest of some trees. -/
def heights : List Node → Nat
  | [] => 0
  | n :: ns => max (height n) (heights ns)

end

theorem heights_le_iff {ns : List Node} {k : Nat} : heights ns ≤ k ↔ ∀ n ∈ ns, n.height ≤ k := by
  induction ns with
  | nil => simp [heights]
  | cons n ns ih => rw [heights, max_le_iff, ih, List.forall_mem_cons]

theorem height_ofUnary (op : String) (place : Span) (operand : Node) :
    (ofUnary op place operand).height = operand.height + 2 := by
  simp [ofUnary, height, heights]

theorem height_ofBinary (left : Node) (op : String) (place : Span) (right : Node) :
    (left.ofBinary op place right).height = max (left.height + 1) right.height + 1 := by
  simp [ofBinary, height, heights]

theorem height_ofCall (callee : Node) (args : List Node) (stop : Nat) :
    (callee.ofCall args stop).height = max callee.height (heights args) + 1 := by
  rw [ofCall, height]

theorem height_ofField (value : Node) (field : String) (stop : Nat) :
    (value.ofField field stop).height = value.height + 1 := by
  rw [ofField, height]

end Node

namespace Item

/-- The height of the trees in an item. -/
def height : Item → Nat
  | operand node => node.height
  | call args _ => Node.heights args
  | unary .. | binary .. | field .. => 0

/-- **Every item of an expression adds at most two to the height of its tree.** -/
theorem climbs_grows_height {H : Nat} (k : Nat) : ∀ items : List Item, items.length = k →
    (∀ i ∈ items, i.height ≤ H) →
    (∀ floor node rest, climbs floor items = some (node, rest) →
      rest <:+ items ∧ node.height + 2 * rest.length ≤ H + 2 * items.length) ∧
    ∀ floor left node rest, grows floor left items = some (node, rest) →
      rest <:+ items ∧ node.height + 2 * rest.length ≤ max left.height H + 2 * items.length := by
  induction k using Nat.strongRecOn with
  | ind k ih =>
    intro items hk hH
    cases items with
    | nil =>
      refine ⟨fun floor node rest h => ?_, fun floor left node rest h => ?_⟩
      · rw [climbs_nil] at h
        cases h
      · rw [grows_nil] at h
        cases h
        exact ⟨List.suffix_rfl, by simp⟩
    | cons item items =>
      have hlt : items.length < k := hk ▸ Nat.lt_succ_self _
      obtain ⟨hitem, hrest⟩ := List.forall_mem_cons.mp hH
      obtain ⟨ihclimbs, ihgrows⟩ := ih items.length hlt items rfl hrest
      have hlength : (item :: items).length = items.length + 1 := rfl
      -- what is left of the items behind an operand is treated like the items themselves
      have ihleft {rest₁ rest : List Item} (h₁ : rest₁ <:+ items) {floor : Nat} {left node : Node}
          (h : grows floor left rest₁ = some (node, rest)) : rest <:+ item :: items ∧
          node.height + 2 * rest.length ≤ max left.height H + 2 * rest₁.length := by
        obtain ⟨hs, hle⟩ := (ih rest₁.length (h₁.length_le.trans_lt hlt) rest₁ rfl
          fun i hi => hrest i (h₁.subset hi)).2 floor left node rest h
        exact ⟨(hs.trans h₁).trans (List.suffix_cons ..), hle⟩
      cases item with
      | operand n =>
        refine ⟨fun floor node rest h => ?_, fun floor left node rest h => ?_⟩
        · rw [climbs_operand] at h
          obtain ⟨hs, hle⟩ := ihleft List.suffix_rfl h
          rw [height] at hitem
          exact ⟨hs, by omega⟩
        · rw [grows_operand] at h
          cases h
      | unary op span =>
        refine ⟨fun floor node rest h => ?_, fun floor left node rest h => ?_⟩
        · rw [climbs_unary, Option.bind_eq_some_iff] at h
          obtain ⟨⟨inner, rest₁⟩, hinner, h⟩ := h
          replace h : grows floor (.ofUnary op span inner) rest₁ = some (node, rest) := h
          obtain ⟨hs₁, hle₁⟩ := ihclimbs _ _ _ hinner
          obtain ⟨hs, hle⟩ := ihleft hs₁ h
          rw [Node.height_ofUnary] at hle
          have := hs₁.length_le
          exact ⟨hs, by omega⟩
        · rw [grows_unary] at h
          cases h
      | binary op strength span =>
        refine ⟨fun floor node rest h => ?_, fun floor left node rest h => ?_⟩
        · rw [climbs_binary] at h
          cases h
        · rw [grows_binary] at h
          split at h
          · rw [Option.bind_eq_some_iff] at h
            obtain ⟨⟨right, rest₁⟩, hright, h⟩ := h
            replace h : grows floor (left.ofBinary op span right) rest₁ = some (node, rest) := h
            obtain ⟨hs₁, hle₁⟩ := ihclimbs _ _ _ hright
            obtain ⟨hs, hle⟩ := ihleft hs₁ h
            rw [Node.height_ofBinary] at hle
            have := hs₁.length_le
            have := length_climbs hright
            exact ⟨hs, by omega⟩
          · cases h
            exact ⟨List.suffix_rfl, by omega⟩
      | call args stop =>
        refine ⟨fun floor node rest h => ?_, fun floor left node rest h => ?_⟩
        · rw [climbs_call] at h
          cases h
        · rw [grows_call] at h
          obtain ⟨hs, hle⟩ := ihleft List.suffix_rfl h
          rw [Node.height_ofCall] at hle
          rw [height] at hitem
          exact ⟨hs, by omega⟩
      | field name stop =>
        refine ⟨fun floor node rest h => ?_, fun floor left node rest h => ?_⟩
        · rw [climbs_field] at h
          cases h
        · rw [grows_field] at h
          obtain ⟨hs, hle⟩ := ihleft List.suffix_rfl h
          rw [Node.height_ofField] at hle
          exact ⟨hs, by omega⟩

theorem height_tree? {H : Nat} {items : List Item} {node : Node} (h : tree? items = some node)
    (hH : ∀ i ∈ items, i.height ≤ H) : node.height ≤ H + 2 * items.length := by
  obtain ⟨⟨tree, rest⟩, hclimb, rfl⟩ := Option.map_eq_some_iff.mp h
  have hclimbs : climbs 0 items = some (tree, rest.1) := by rw [climbs, hclimb]; rfl
  have := ((climbs_grows_height items.length items rfl hH).1 0 tree rest.1 hclimbs).2
  show tree.height ≤ _
  omega

end Item

/-! ## Matches -/

namespace Tree

mutual

/-- The height of a match. -/
def height : Tree Rule → Nat
  | .leaf .. => 1
  | .node _ _ ts => heights ts + 1

/-- The height of the highest of some matches. -/
def heights : List (Tree Rule) → Nat
  | [] => 0
  | t :: ts => max (height t) (heights ts)

end

mutual

/-- The greatest number of items in an expression of a match. -/
def width : Tree Rule → Nat
  | .leaf .. => 0
  | .node .expression _ ts => max ts.length (widths ts)
  | .node _ _ ts => widths ts

/-- The greatest number of items in an expression of some matches. -/
def widths : List (Tree Rule) → Nat
  | [] => 0
  | t :: ts => max (width t) (widths ts)

end

theorem widths_le_width (r : Rule) (span : Span) (ts : List (Tree Rule)) :
    widths ts ≤ width (.node r span ts) := by
  cases r <;> simp only [width] <;> omega

theorem width_body_le (span : Span) (a b t : Tree Rule) :
    width t ≤ width (.node .function span [a, b, t]) := by
  simp only [width, widths]
  omega

theorem heights_le_iff {ts : List (Tree Rule)} {k : Nat} :
    heights ts ≤ k ↔ ∀ t ∈ ts, t.height ≤ k := by
  induction ts with
  | nil => simp [heights]
  | cons t ts ih => rw [heights, max_le_iff, ih, List.forall_mem_cons]

theorem height_of_leafNode {rule : Rule} {span : Span} {text : List Char} {n : Node}
    (h : leafNode rule span text = .ok n) : n.height = 1 := by
  rw [leafNode.eq_def] at h
  split at h
  · obtain ⟨i, -, h⟩ := exists_of_bind_eq_ok h
    cases h
    rw [Node.height]
  · cases h
    rw [Node.height]
  · obtain ⟨cs, -, h⟩ := exists_of_bind_eq_ok h
    cases h
    rw [Node.height]
  · cases h
    rw [Node.height]
  · cases h

theorem height_of_expressionOf {span : Span} {items : List Item} {n : Node} {H : Nat}
    (h : expressionOf span items = .ok n) (hH : ∀ i ∈ items, i.height ≤ H) :
    n.height ≤ H + 2 * items.length := by
  rw [expressionOf] at h
  split at h
  · cases h
    exact Item.height_tree? ‹_› hH
  · cases h

/-- **The tree of a match** is higher than the match by a factor that depends on its longest
expression only. -/
theorem heights_of_trees {w K : Nat} (hK : 2 * w + 2 ≤ K) :
    (∀ t : Tree Rule, width t ≤ w → ∀ n, toNode t = .ok n → n.height ≤ height t * K) ∧
    (∀ ts, widths ts ≤ w → ∀ ns, toNodes ts = .ok ns → Node.heights ns ≤ heights ts * K) ∧
    (∀ ts, widths ts ≤ w → ∀ items, toItems ts = .ok items →
      items.length = ts.length ∧ ∀ i ∈ items, i.height ≤ heights ts * K) ∧
    ∀ t : Tree Rule, width t ≤ w → ∀ i, toItem t = .ok i → i.height ≤ height t * K := by
  have hinner {r : Rule} {span : Span} {ts : List (Tree Rule)} (h : width (.node r span ts) ≤ w) :
      widths ts ≤ w := (widths_le_width r span ts).trans h
  have hsucc (k : Nat) : (k + 1) * K = k * K + K := Nat.succ_mul k K
  refine Tree.toNode.mutual_induct _ _ _ _ ?leaf ?expression ?grouped ?assignment ?block ?inline
    ?other ?operand ?call ?field ?noField ?group ?neg ?not ?binary ?none ?finish ?some ?noItem ?items
  case leaf =>
    intro rule span text _ n h
    rw [toNode] at h
    rw [height_of_leafNode h, height]
    omega
  case expression =>
    intro span ts ih hw n h
    rw [toNode] at h
    obtain ⟨items, hitems, h⟩ := exists_of_bind_eq_ok h
    obtain ⟨hlength, hheights⟩ := ih (hinner hw) items hitems
    have hle := height_of_expressionOf h hheights
    rw [width] at hw
    rw [height, hsucc]
    omega
  case grouped =>
    intro span ts ih hw n h
    rw [toNode] at h
    obtain ⟨ns, hns, h⟩ := exists_of_bind_eq_ok h
    have hle := ih (hinner hw) ns hns
    split at h
    · cases h
      rw [Node.heights, Node.heights] at hle
      rw [height, hsucc]
      omega
    · cases h
  case assignment =>
    intro span ts ih hw n h
    rw [toNode] at h
    obtain ⟨ns, hns, h⟩ := exists_of_bind_eq_ok h
    have hle := ih (hinner hw) ns hns
    split at h
    · rename_i value hlast
      cases h
      have := Node.heights_le_iff.mp hle value (List.mem_of_getLast? hlast)
      rw [Node.height, height, hsucc]
      omega
    · cases h
  case block =>
    intro span _ _ name _ _ params inner ts ih hw n h
    rw [toNode] at h
    obtain ⟨ns, hns, h⟩ := exists_of_bind_eq_ok h
    cases h
    have hle := ih (hinner ((width_body_le ..).trans hw)) ns hns
    -- a function and its body are two nodes, and so are their matches
    refine le_trans ?_ (Nat.mul_le_mul_right K (?_ : heights ts + 2 ≤ _))
    · rw [Node.height, Node.height, hsucc, hsucc]
      omega
    · simp only [height, heights]
      omega
  case inline =>
    intro span _ _ name _ _ params inner ts ih hw n h
    rw [toNode] at h
    obtain ⟨items, hitems, h⟩ := exists_of_bind_eq_ok h
    obtain ⟨value, hvalue, h⟩ := exists_of_bind_eq_ok h
    cases h
    have hwidths : ts.length ≤ w ∧ widths ts ≤ w := by
      have := (width_body_le ..).trans hw
      rw [width] at this
      omega
    obtain ⟨hlength, hheights⟩ := ih hwidths.2 items hitems
    have hle := height_of_expressionOf hvalue hheights
    refine le_trans ?_ (Nat.mul_le_mul_right K (?_ : heights ts + 2 ≤ _))
    · simp only [Node.height, Node.heights, hsucc]
      omega
    · simp only [height, heights]
      omega
  case other =>
    intro rule span ts h₁ h₂ h₃ h₄ h₅ _ n h
    rw [toNode] at h <;> first | assumption | cases h
  case operand =>
    intro rule span text _ i h
    rw [toItem] at h
    obtain ⟨n, hn, h⟩ := exists_of_bind_eq_ok h
    cases h
    rw [Item.height, height_of_leafNode hn, height]
    omega
  case call =>
    intro span ts ih hw i h
    rw [toItem] at h
    obtain ⟨ns, hns, h⟩ := exists_of_bind_eq_ok h
    cases h
    have hle := ih (hinner hw) ns hns
    rw [Item.height, height, hsucc]
    omega
  case field =>
    intro span ts name hname _ i h
    rw [toItem, hname] at h
    cases h
    exact Nat.zero_le _
  case noField =>
    intro span ts hname _ i h
    rw [toItem] at h
    split at h
    · exact absurd ‹_› (hname _)
    · cases h
  case group =>
    intro span ts ih hw i h
    rw [toItem] at h
    obtain ⟨ns, hns, h⟩ := exists_of_bind_eq_ok h
    have hle := ih (hinner hw) ns hns
    split at h
    · cases h
      rw [Node.heights, Node.heights] at hle
      rw [Item.height, height, hsucc]
      omega
    · cases h
  case neg | not =>
    intro span ts _ i h
    rw [toItem] at h
    cases h
    exact Nat.zero_le _
  case binary =>
    intro rule span ts h₁ h₂ h₃ h₄ h₅ _ i h
    rw [toItem] at h <;> first | assumption | (cases h; exact Nat.zero_le _)
  case none =>
    intro _ ns h
    cases h
    exact Nat.zero_le _
  case finish =>
    intro span us ts ih hw ns h
    rw [toNodes] at h
    rw [widths] at hw
    have hle := ih (by omega) ns h
    exact hle.trans (Nat.mul_le_mul_right K (Nat.le_max_right ..))
  case some =>
    intro t ts hfinish iht ihts hw ns h
    rw [toNodes.eq_3 _ _ hfinish] at h
    obtain ⟨n, hn, h⟩ := exists_of_bind_eq_ok h
    obtain ⟨ns, hns, h⟩ := exists_of_bind_eq_ok h
    cases h
    rw [widths] at hw
    rw [Node.heights, heights, max_mul]
    exact max_le_max (iht (by omega) n hn) (ihts (by omega) ns hns)
  case noItem =>
    intro _ items h
    cases h
    simp
  case items =>
    intro t ts iht ihts hw items h
    rw [toItems] at h
    obtain ⟨i, hi, h⟩ := exists_of_bind_eq_ok h
    obtain ⟨is, his, h⟩ := exists_of_bind_eq_ok h
    cases h
    rw [widths] at hw
    obtain ⟨hlength, hheights⟩ := ihts (by omega) is his
    refine ⟨by rw [List.length_cons, List.length_cons, hlength], List.forall_mem_cons.mpr ⟨?_, ?_⟩⟩
    · rw [heights, max_mul]
      exact (iht (by omega) i hi).trans (Nat.le_max_left ..)
    · intro j hj
      rw [heights, max_mul]
      exact (hheights j hj).trans (Nat.le_max_right ..)

end Tree

/-! ## Derivations -/

/-- The rules whose matches are part of a match of a pattern. -/
def Pattern.rules {R : Type} : Pattern R → List R
  | .rule r => [r]
  | .seq a b | .alt a b => a.rules ++ b.rules
  | .star a | .more a => a.rules
  | .text _ | .satisfy _ | .finish | .absent _ => []

namespace Grammar

variable {R : Type} {g : Grammar R}

/-- What holds of the matches of the rules in a pattern holds of all trees of its matches. -/
theorem forall_of_outcome {Q : Tree R → Prop} {n : Nat} {p : Pattern R} {c d : Cursor}
    {ts : List (Tree R)} (h : g.outcome n .spaced p c = .done d ts)
    (hQ : ∀ r ∈ p.rules, ∀ i ≤ n, ∀ {c d ts}, g.outcome i .spaced (.rule r) c = .done d ts →
      ∀ t ∈ ts, Q t) : ∀ t ∈ ts, Q t := by
  induction n generalizing p c d ts with
  | zero => cases h
  | succ n ih =>
    -- the hypothesis on rules, for a part of the pattern
    have part {q : Pattern R} (hq : ∀ r ∈ q.rules, r ∈ p.rules) {c d ts}
        (h : g.outcome n .spaced q c = .done d ts) : ∀ t ∈ ts, Q t :=
      ih h fun r hr i hi => hQ r (hq r hr) i (hi.trans n.le_succ)
    cases p with
    | text cs =>
      obtain ⟨-, rfl⟩ := Takes.of_text ⟨n + 1, h⟩
      simp
    | satisfy f =>
      obtain ⟨-, -, -, rfl⟩ := Takes.of_satisfy ⟨n + 1, h⟩
      simp
    | finish =>
      obtain ⟨-, -, rfl⟩ := Takes.of_finish ⟨n + 1, h⟩
      simp
    | absent a =>
      obtain ⟨-, rfl, -⟩ := Takes.of_absent ⟨n + 1, h⟩
      simp
    | rule r => exact hQ r (by simp [Pattern.rules]) (n + 1) le_rfl h
    | seq a b =>
      rw [outcome_seq] at h
      obtain ⟨c₁, t₁, ha, h⟩ | ⟨-, h⟩ := Matched.elim_eq_done h
      · obtain ⟨c₂, t₂, -, h⟩ | ⟨-, h⟩ := Matched.elim_eq_done h
        · obtain ⟨c₃, t₃, hb, h⟩ | ⟨-, h⟩ := Matched.elim_eq_done h
          · cases h
            exact List.forall_mem_append.mpr ⟨part (by simp +contextual [Pattern.rules]) ha,
              part (by simp +contextual [Pattern.rules]) hb⟩
          · cases h
        · cases h
      · cases h
    | alt a b =>
      rw [outcome_alt] at h
      obtain ⟨c₁, t₁, ha, h⟩ | ⟨-, h⟩ := Matched.elim_eq_done h
      · cases h
        exact part (by simp +contextual [Pattern.rules]) ha
      · exact part (by simp +contextual [Pattern.rules]) h
    | star a =>
      rw [outcome_star] at h
      obtain ⟨c₁, t₁, ha, h⟩ | ⟨-, h⟩ := Matched.elim_eq_done h
      · obtain ⟨c₂, t₂, hm, h⟩ | ⟨-, h⟩ := Matched.elim_eq_done h
        · cases h
          exact List.forall_mem_append.mpr
            ⟨part (q := a) (fun _ hr => hr) ha, part (q := .more a) (fun _ hr => hr) hm⟩
        · cases h
      · cases h
        simp
    | more a =>
      rw [outcome_more] at h
      obtain ⟨c₁, t₁, -, h⟩ | ⟨-, h⟩ := Matched.elim_eq_done h
      · obtain ⟨c₂, t₂, ha, h⟩ | ⟨-, h⟩ := Matched.elim_eq_done h
        · obtain ⟨c₃, t₃, hm, h⟩ | ⟨-, h⟩ := Matched.elim_eq_done h
          · cases h
            exact List.forall_mem_append.mpr
              ⟨part (q := a) (fun _ hr => hr) ha, part (q := .more a) (fun _ hr => hr) hm⟩
          · cases h
        · cases h
          simp
      · cases h

end Grammar

namespace Rule

/-- Whether a rule is a level of nesting. -/
def isLevel : Rule → Bool
  | grouped | callOp | block => true
  | _ => false

/-- How much higher a match of a rule can be than two times the deepest level in it. -/
def slack : Rule → Nat
  | program => 5
  | function | assignment => 4
  | block | expression => 3
  | params | callOp | fieldOp | grouped => 2
  | _ => 1

theorem slack_pos (r : Rule) : 1 ≤ r.slack := by cases r <;> decide

/-- A rule has the slack of the rules in its body and one more, unless it is a level. -/
theorem slack_body (r : Rule) : ∀ q ∈ (body r).rules, q.slack + 1 ≤ r.slack + if r.isLevel then 2 else 0 := by
  cases r <;> decide

end Rule

namespace Tree

variable {signs : Tree Rule → List Bool}

theorem level_le_levels {t : Tree Rule} {ts : List (Tree Rule)} (h : t ∈ ts) :
    level signs t ≤ levels signs ts := by
  induction ts with
  | nil => cases h
  | cons u us ih =>
    rw [levels]
    obtain rfl | h := List.mem_cons.mp h
    · exact Nat.le_max_left ..
    · exact (ih h).trans (Nat.le_max_right ..)

theorem levels_le_level (r : Rule) (span : Span) (ts : List (Tree Rule)) :
    levels signs ts + (if r.isLevel then 1 else 0) ≤ level signs (.node r span ts) := by
  have hchain : levels signs ts ≤ chain signs 0 ts := levels_le_chain 0 ts
  cases r <;> simp only [level, Rule.isLevel, Bool.false_eq_true, if_false, if_true] <;> omega

/-- **A match is not much higher than two times the deepest level in it.** -/
theorem height_le_of_outcome (n : Nat) : ∀ {r c d ts},
    grammar.outcome n .spaced (.rule r) c = .done d ts →
      ∀ t ∈ ts, t.height ≤ 2 * t.level signs + r.slack := by
  induction n using Nat.strongRecOn with
  | ind n ih =>
    intro r c d ts h
    cases n with
    | zero => cases h
    | succ n =>
      have hslack := r.slack_pos
      cases hr : isToken r with
      | true =>
        rw [outcome_token _ _ _ hr] at h
        obtain ⟨e, us, -, hd⟩ | ⟨-, hd⟩ := Matched.elim_eq_done h
        · cases hd
          simp only [List.mem_singleton, forall_eq, height, level]
          omega
        · cases hd
      | false =>
        rw [outcome_node _ _ _ hr] at h
        obtain ⟨e, us, hbody, hd⟩ | ⟨-, hd⟩ := Matched.elim_eq_done h
        · cases hd
          -- a level leaves room for the two nodes that it adds
          have hparts : ∀ t ∈ us, t.height + 1 ≤
              2 * t.level signs + (r.slack + if r.isLevel then 2 else 0) :=
            forall_of_outcome hbody fun q hq i hi _ _ _ ho t ht => by
              have hle := ih i (Nat.lt_succ_of_le hi) ho t ht
              have hbody := slack_body r q hq
              omega
          have hheights : heights us ≤
              2 * levels signs us + (r.slack + (if r.isLevel then 2 else 0) - 1) :=
            heights_le_iff.mpr fun t ht => by
              have hle := hparts t ht
              have hlevel : t.level signs ≤ levels signs us := level_le_levels ht
              omega
          have hlevels : _ ≤ level signs (.node r ⟨c.offset, d.offset⟩ us) :=
            levels_le_level r ⟨c.offset, d.offset⟩ us
          simp only [List.mem_singleton, forall_eq, height]
          cases hl : r.isLevel <;> simp only [hl, if_true, Bool.false_eq_true, if_false] at hheights hlevels <;>
            omega
        · cases hd

end Tree

/-! ## Programs -/

/-- A text without brackets, signs, literals and comments is not nested. -/
theorem Nesting.check_of_still {limit : Nat} {cs : List Char}
    (h : ∀ c ∈ cs, start.step c = start) : check limit cs = .ok () := by
  have hall (offset : Nat) : start.checkFrom limit offset cs = .ok () := by
    induction cs generalizing offset with
    | nil => rfl
    | cons c cs ih =>
      obtain ⟨hc, hcs⟩ := List.forall_mem_cons.mp h
      rw [checkFrom, hc, if_neg (show ¬limit < start.depth from Nat.not_lt_zero limit)]
      exact ih hcs _
  exact hall 0

namespace Node

/-- **The height of a program** is bounded by the limit on nesting and the longest expression, if
every comment takes up the rest of its line. -/
theorem height_le_of_parseWithin {limit : Nat} {source : String} {node : Node}
    (h : parseWithin limit source = .ok node) (ht : Nesting.start.Tidy source.toList) :
    ∃ e t w, grammar.start .program source.toList = (.done e [t], w) ∧
      node.height ≤ (2 * limit + 5) * (2 * t.width + 2) := by
  obtain ⟨e, span, ts, w, nodes, hstart, hnodes, rfl⟩ := exists_start_of_parseWithin h
  refine ⟨e, _, w, hstart, ?_⟩
  have hlevel := level_le_limit h hstart ht
  have hmatch : Tree.height (.node .program span ts) ≤
      2 * Tree.level Tree.unarySigns (.node .program span ts) + slack .program :=
    Tree.height_le_of_outcome _ ((fst_run .none).symm.trans (congrArg Prod.fst hstart)) _
      (List.mem_singleton_self _)
  set width := Tree.width (.node .program span ts)
  have htrees : heights nodes ≤ Tree.heights ts * (2 * width + 2) :=
    (Tree.heights_of_trees le_rfl).2.1 ts (Tree.widths_le_width .program span ts) nodes hnodes
  have hheights : Tree.heights ts + 1 ≤ 2 * limit + 5 := by
    rw [Tree.height] at hmatch
    have hslack : slack .program = 5 := rfl
    omega
  calc height (.list ⟨0, source.utf8ByteSize⟩ nodes)
      = heights nodes + 1 := by rw [height]
    _ ≤ Tree.heights ts * (2 * width + 2) + (2 * width + 2) := by omega
    _ = (Tree.heights ts + 1) * (2 * width + 2) := (Nat.succ_mul ..).symm
    _ ≤ (2 * limit + 5) * (2 * width + 2) := Nat.mul_le_mul_right _ hheights

theorem height_le_sample : ∃ node, parseWithin 2 "(-1)" = .ok node ∧
    Nesting.start.Tidy "(-1)".toList ∧ ∃ e t w,
      grammar.start .program "(-1)".toList = (.done e [t], w) ∧
        node.height ≤ (2 * 2 + 5) * (2 * t.width + 2) := by
  have ht : Nesting.start.Tidy "(-1)".toList := by decide
  exact ⟨_, parseWithin_sample, ht, height_le_of_parseWithin parseWithin_sample ht⟩

/-! ## Chains of fields -/

/-- A name with `n` fields selected one after the other. -/
def selects : Nat → Node
  | 0 => .ident .none "x"
  | n + 1 => .select .none (selects n) "x" .member

theorem height_selects (n : Nat) : (selects n).height = n + 1 := by
  induction n with
  | zero => rw [selects, height]
  | succ n ih => rw [selects, height, ih]

theorem expression_selects (n : Nat) : (selects n).Expression := by
  induction n with
  | zero =>
    rw [selects, Expression]
    decide
  | succ n ih =>
    rw [selects, Expression]
    exact ⟨by decide, ih⟩

theorem tokens_selects (n level : Nat) :
    ∀ t ∈ (selects n).tokens level, ∀ c ∈ t, c = 'x' ∨ c = '.' := by
  induction n generalizing level with
  | zero => simp [selects, tokens]
  | succ n ih =>
    rw [selects, tokens]
    intro t ht
    obtain ht | ht := List.mem_append.mp ht
    · exact ih _ t ht
    · have htwo : t = ['.'] ∨ t = ['x'] := by simpa using ht
      obtain rfl | rfl := htwo <;> simp

mutual

theorem height_bare : (n : Node) → n.bare.height = n.height
  | list _ items => by rw [bare, height, height, heights_allBare]
  | assign _ _ value | select _ value _ _ | function _ _ _ value => by
    rw [bare, height, height, height_bare]
  | call _ callee args => by rw [bare, height, height, height_bare, heights_allBare]
  | ident .. | literal .. => by rw [bare, height, height]

theorem heights_allBare : (ns : List Node) → heights (allBare ns) = heights ns
  | [] => rfl
  | n :: ns => by rw [allBare, heights, heights, height_bare, heights_allBare]

end

theorem statements_selects (n : Nat) : Statements [selects n] := by
  have hn := expression_selects n
  rw [Statements, Statements]
  refine ⟨?_, trivial⟩
  cases n <;> simpa [selects, Statement] using hn

theorem print_selects (n : Nat) : print [selects n] = spaced ((selects n).tokens 0) := by
  cases n <;> simp [selects, print, printOne]

theorem mem_spaced {ts : List (List Char)} {c : Char} (h : c ∈ spaced ts) :
    c = ' ' ∨ ∃ t ∈ ts, c ∈ t := by
  fun_induction spaced ts with
  | case1 => cases h
  | case2 t => exact .inr ⟨t, by simp, h⟩
  | case3 t ts _ ih =>
    obtain h | h := List.mem_append.mp h
    · exact .inr ⟨t, by simp, h⟩
    · obtain rfl | h := List.mem_cons.mp h
      · exact .inl rfl
      · exact (ih h).imp id fun ⟨t', ht', hc⟩ => ⟨t', List.mem_cons_of_mem _ ht', hc⟩

theorem check_selects (limit n : Nat) : Nesting.check limit (print [selects n]) = .ok () := by
  refine Nesting.check_of_still fun c hc => ?_
  rw [print_selects] at hc
  obtain rfl | ⟨t, ht, hc⟩ := mem_spaced hc
  · decide
  · obtain rfl | rfl := tokens_selects n 0 t ht c hc <;> decide

/-- **The height of a program is not bounded by the limit on nesting alone**: fields can be selected
one after the other any number of times where no nesting is allowed at all. -/
theorem not_bounded_by_limit : ¬∃ bound : Nat → Nat, ∀ limit source node,
    parseWithin limit source = .ok node → node.height ≤ bound limit := by
  rintro ⟨bound, hbound⟩
  have hs := statements_selects (bound 0)
  have hloose : Loose [] := by simp [Loose]
  have hcheck : Nesting.check 0 ([] ++ (print [selects (bound 0)] ++ [])) = .ok () := by
    rw [List.nil_append, List.append_nil]
    exact check_selects 0 (bound 0)
  obtain ⟨node, hparse, hbare⟩ := (writes_print hs).parseWithin_of_check hs hloose hloose hcheck
  have hheight : node.height = bound 0 + 2 := by
    rw [← height_bare, hbare, height_bare, height, heights, height_selects]
    simp [heights]
  have := hbound 0 _ node hparse
  omega

end Node

end Dataflow
