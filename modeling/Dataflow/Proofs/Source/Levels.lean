import Dataflow.Proofs.Source.Measure

/-!
# Levels of nesting

A match says where brackets, braces and unary operators stand, so it says how deeply its parts are
nested.

* `Tree.level`: the deepest level inside a match;
* `Tree.unarySigns`, `Tree.allSigns`: what counts as a run of signs, for the grammar and for the
  measure;
* `Tree.OnlyUnary`: matches for which both count the same.
-/

namespace Dataflow

namespace Tree

/-! ## Levels inside a match -/

/-- The signs of an item of an expression: unary operators only. -/
def unarySigns : Tree Rule → List Bool
  | .node .neg _ _ | .node .not _ _ => [true]
  | _ => [false]

/-- The signs among the characters of an item of an expression, whatever they are used for: in unary
and binary operators, in the name of a field behind its dot, in an exponent behind its digits. -/
def allSigns : Tree Rule → List Bool
  | .leaf .string _ _ => [false]
  | .leaf _ _ chars => false :: chars.map isSign
  | .node .fieldOp _ [.leaf _ _ chars] => false :: chars.map isSign
  | .node r _ _ => if r.operatorText = "" then [false] else r.operatorText.toList.map isSign

section Level

variable (signs : Tree Rule → List Bool)

mutual

/-- The deepest level inside a match. Every pair of brackets or braces is one level, and so is every
sign of a run, where `signs` says what the signs of an item are. -/
def level : Tree Rule → Nat
  | .leaf .. => 0
  | .node r _ ts =>
    match r with
    | .grouped | .callOp | .block => levels ts + 1
    | .function => max 1 (levels ts)
    | .expression => chain 0 ts
    | _ => levels ts

/-- The deepest level inside some matches. -/
def levels : List (Tree Rule) → Nat
  | [] => 0
  | t :: ts => max (level t) (levels ts)

/-- The deepest level inside the items of an expression that follow a run of signs. -/
def chain (run : Nat) : List (Tree Rule) → Nat
  | [] => run
  | t :: ts => max (max (signPeak run (signs t)) (level t)) (chain (signRun run (signs t)) ts)

end

/-- The run of signs that some items of an expression end with. -/
def runBehind (run : Nat) : List (Tree Rule) → Nat
  | [] => run
  | t :: ts => runBehind (signRun run (signs t)) ts

variable {signs}

theorem levels_append (ts us : List (Tree Rule)) :
    levels signs (ts ++ us) = max (levels signs ts) (levels signs us) := by
  induction ts with
  | nil => simp [levels]
  | cons t ts ih => rw [List.cons_append, levels, levels, ih, max_assoc]

theorem runBehind_append (run : Nat) (ts us : List (Tree Rule)) :
    runBehind signs run (ts ++ us) = runBehind signs (runBehind signs run ts) us := by
  induction ts generalizing run with
  | nil => rfl
  | cons t ts ih => exact ih _

theorem le_chain (run : Nat) (ts : List (Tree Rule)) : run ≤ chain signs run ts := by
  cases ts with
  | nil => rw [chain]
  | cons t ts =>
    have := le_signPeak run (signs t)
    rw [chain]
    omega

theorem levels_le_chain (run : Nat) (ts : List (Tree Rule)) :
    levels signs ts ≤ chain signs run ts := by
  induction ts generalizing run with
  | nil => exact Nat.zero_le run
  | cons t ts ih =>
    have := ih (signRun run (signs t))
    rw [levels, chain]
    omega

theorem runBehind_le_chain (run : Nat) (ts : List (Tree Rule)) :
    runBehind signs run ts ≤ chain signs run ts := by
  induction ts generalizing run with
  | nil => rw [chain, runBehind]
  | cons t ts ih =>
    have := ih (signRun run (signs t))
    rw [chain, runBehind]
    omega

theorem chain_append (run : Nat) (ts us : List (Tree Rule)) :
    chain signs run (ts ++ us) =
      max (chain signs run ts) (chain signs (runBehind signs run ts) us) := by
  induction ts generalizing run with
  | nil =>
    rw [List.nil_append, chain, runBehind, max_eq_right (le_chain run us)]
  | cons t ts ih =>
    rw [List.cons_append, chain, chain, ih, runBehind, max_assoc (max _ _)]

end Level

/-! ## Fewer signs -/

theorem unarySigns_cases (t : Tree Rule) :
    unarySigns t = allSigns t ∨ unarySigns t = [false] := by
  cases t with
  | leaf => exact .inr rfl
  | node r span ts =>
    by_cases hr : r = .neg ∨ r = .not
    · obtain rfl | rfl := hr <;> exact .inl rfl
    · refine .inr ?_
      rw [unarySigns] <;> rintro _ _ ⟨⟩ <;> simp at hr

theorem signPeak_unary_le {run run' : Nat} (h : run ≤ run') (t : Tree Rule) :
    signPeak run (unarySigns t) ≤ signPeak run' (allSigns t) := by
  obtain ht | ht := unarySigns_cases t
  · rw [ht]
    exact signPeak_mono h _
  · rw [ht]
    have := le_signPeak run' (allSigns t)
    simp only [signPeak, Bool.false_eq_true, if_false]
    omega

theorem signRun_unary_le {run run' : Nat} (h : run ≤ run') (t : Tree Rule) :
    signRun run (unarySigns t) ≤ signRun run' (allSigns t) := by
  obtain ht | ht := unarySigns_cases t
  · rw [ht]
    exact signRun_mono h _
  · rw [ht]
    exact Nat.zero_le _

mutual

/-- Where only unary operators count there are no more levels than where every sign counts. -/
theorem level_unary_le : (t : Tree Rule) → level unarySigns t ≤ level allSigns t
  | .leaf .. => Nat.le_refl _
  | .node r span ts => by
    have hlevels := levels_unary_le ts
    have hchain := chain_unary_le (Nat.le_refl 0) ts
    cases r <;> simp only [level] <;> omega

theorem levels_unary_le : (ts : List (Tree Rule)) → levels unarySigns ts ≤ levels allSigns ts
  | [] => Nat.le_refl _
  | t :: ts => max_le_max (level_unary_le t) (levels_unary_le ts)

theorem chain_unary_le {run run' : Nat} (h : run ≤ run') :
    (ts : List (Tree Rule)) → chain unarySigns run ts ≤ chain allSigns run' ts
  | [] => h
  | t :: ts => max_le_max (max_le_max (signPeak_unary_le h t) (level_unary_le t))
      (chain_unary_le (signRun_unary_le h t) ts)

end

mutual

/-- Whether every sign of a match is a unary operator. -/
def OnlyUnary : Tree Rule → Prop
  | .leaf .. => True
  | .node _ _ ts => AllOnlyUnary ts

/-- Whether every sign of some matches is a unary operator. -/
def AllOnlyUnary : List (Tree Rule) → Prop
  | [] => True
  | t :: ts => (true ∈ allSigns t → true ∈ unarySigns t) ∧ OnlyUnary t ∧ AllOnlyUnary ts

end

theorem allSigns_ne_nil (t : Tree Rule) : allSigns t ≠ [] := by
  cases t with
  | leaf r span chars => cases r <;> simp [allSigns]
  | node r span ts =>
    rw [allSigns.eq_def]
    split
    · simp
    · simp
    · simp
    · split
      · simp
      · simpa using ‹_›

theorem sameRuns_of_only {t : Tree Rule} (h : true ∈ allSigns t → true ∈ unarySigns t) (run : Nat) :
    signPeak run (unarySigns t) = signPeak run (allSigns t) ∧
      signRun run (unarySigns t) = signRun run (allSigns t) := by
  obtain ht | ht := unarySigns_cases t
  · rw [ht]
    exact ⟨rfl, rfl⟩
  · have hsignless : ∀ sign ∈ allSigns t, sign = false := by
      intro sign hsign
      by_contra hs
      rw [Bool.not_eq_false] at hs
      rw [hs] at hsign
      have := h hsign
      rw [ht] at this
      simp at this
    rw [ht, signPeak_of_signless hsignless, signRun_of_signless (allSigns_ne_nil t) hsignless]
    exact ⟨max_eq_left (Nat.zero_le run), rfl⟩

mutual

theorem level_unary_eq : (t : Tree Rule) → t.OnlyUnary → level unarySigns t = level allSigns t
  | .leaf .., _ => rfl
  | .node r span ts, h => by
    rw [OnlyUnary] at h
    have hlevels := levels_unary_eq ts h
    have hchain := chain_unary_eq 0 ts h
    cases r <;> simp only [level, hlevels, hchain]

theorem levels_unary_eq : (ts : List (Tree Rule)) → AllOnlyUnary ts →
    levels unarySigns ts = levels allSigns ts
  | [], _ => rfl
  | t :: ts, h => by rw [levels, levels, level_unary_eq t h.2.1, levels_unary_eq ts h.2.2]

theorem chain_unary_eq (run : Nat) : (ts : List (Tree Rule)) → AllOnlyUnary ts →
    chain unarySigns run ts = chain allSigns run ts
  | [], _ => rfl
  | t :: ts, h => by
    obtain ⟨hpeak, hrun⟩ := sameRuns_of_only h.1 run
    rw [chain, chain, hpeak, hrun, level_unary_eq t h.2.1, chain_unary_eq _ ts h.2.2]

end

end Tree

end Dataflow
