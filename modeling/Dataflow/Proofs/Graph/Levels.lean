import Dataflow.Proofs.Graph.Numbers

/-!
# The levels of a graph

* `Graph.mem_levels`: a level of a graph is its outermost one or a level of a function in it;
* `Graph.AllFit`: the numbers of all levels fit;
* `Graph.Built.of_mem_levels`: every level of a graph that was built was built.
-/

namespace Dataflow

namespace Graph

theorem mem_allLevels {bs : List Block} {l : Graph} :
    l ∈ Block.allLevels bs ↔ ∃ b ∈ bs, l ∈ b.levels := by
  induction bs with
  | nil => simp [Block.allLevels]
  | cons b bs ih => simp [Block.allLevels, ih]

theorem levels_function (id : ValueId) (g : Graph) : (Block.function id g).levels = g.levels := by
  obtain ⟨first, params, blocks, dependents⟩ := g
  rw [Graph.levels, Block.levels, Block.levels]

/-- A level of a graph is its outermost one, or a level of one of its functions. -/
theorem mem_levels {g l : Graph} : l ∈ g.levels ↔ l = g ∨
    ∃ (j : Nat) (id : ValueId) (body : Graph),
      g.blocks[j]? = some (.function id body) ∧ l ∈ body.levels := by
  have hg : g.levels = g :: Block.allLevels g.blocks := by
    obtain ⟨first, params, blocks, dependents⟩ := g
    rw [Graph.levels, Block.levels]
  rw [hg, List.mem_cons, mem_allLevels]
  refine or_congr_right ⟨?_, ?_⟩
  · rintro ⟨b, hb, hl⟩
    obtain ⟨j, hj⟩ := List.mem_iff_getElem?.mp hb
    cases b with
    | steps id is =>
      rw [Block.levels] at hl
      cases hl
    | function id body => exact ⟨j, id, body, hj, levels_function id body ▸ hl⟩
  · rintro ⟨j, id, body, hj, hl⟩
    exact ⟨_, List.mem_of_getElem? hj, (levels_function id body).symm ▸ hl⟩

theorem self_mem_levels (g : Graph) : g ∈ g.levels := mem_levels.mpr (.inl rfl)

/-- The levels of a function are among those of the level that declares it. -/
theorem mem_levels_of_body {g body l : Graph} {j : Nat} {id : ValueId}
    (hb : g.blocks[j]? = some (.function id body)) (hl : l ∈ body.levels) : l ∈ g.levels :=
  mem_levels.mpr (.inr ⟨j, id, body, hb, hl⟩)

/-- The numbers of a graph and of all functions in it do not wrap around. -/
def AllFit (g : Graph) : Prop := ∀ l ∈ g.levels, l.Fits

theorem AllFit.fits {g : Graph} (h : g.AllFit) : g.Fits := h g g.self_mem_levels

theorem Built.of_mem_levels {g l : Graph} (h : g.Built) (hl : l ∈ g.levels) : l.Built := by
  induction h with
  | @intro g level bodies ih =>
    rcases mem_levels.mp hl with rfl | ⟨j, id, body, hb, hl⟩
    · exact .intro level bodies
    · exact ih hb hl

end Graph

end Dataflow
