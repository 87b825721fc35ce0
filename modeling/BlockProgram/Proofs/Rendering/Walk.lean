import BlockProgram.Workspace.Chain
import Mathlib

/-!
What the walk along a chain finds, as a relation that follows the walk block by block.
-/

namespace BlockProgram
namespace Workspace

/-- Walking from `next` past blocks already `passed` finds the blocks of the list and ends as told. -/
inductive Walks (ws : Workspace) : List BlockId → Option BlockId → List BlockId → ChainEnd → Prop where
  | complete {passed} : Walks ws passed none [] .complete
  | missing {passed id} (hget : ws.get? id = none) : Walks ws passed (some id) [] (.missing id)
  | back {passed id block} (hget : ws.get? id = some block) (hid : id ∈ passed) :
    Walks ws passed (some id) [] (.back id)
  | step {passed id block rest stop} (hget : ws.get? id = some block) (hid : id ∉ passed)
    (hrest : Walks ws (id :: passed) block.next rest stop) :
    Walks ws passed (some id) (id :: rest) stop

section

variable {ws : Workspace} {passed : List BlockId} {id : BlockId} {block : Block}

theorem walk_missing (hget : ws.get? id = none) : ws.walk passed (some id) = ([], .missing id) := by
  rw [walk]
  split
  · rfl
  · rename_i hsome
    rw [hget] at hsome
    cases hsome

theorem walk_back (hget : ws.get? id = some block) (hid : id ∈ passed) :
    ws.walk passed (some id) = ([], .back id) := by
  rw [walk]
  split
  · rename_i hnone
    rw [hget] at hnone
    cases hnone
  · rw [dif_pos hid]

theorem walk_step (hget : ws.get? id = some block) (hid : id ∉ passed) :
    ws.walk passed (some id) =
      (id :: (ws.walk (id :: passed) block.next).1, (ws.walk (id :: passed) block.next).2) := by
  rw [walk]
  split
  · rename_i hnone
    rw [hget] at hnone
    cases hnone
  · rename_i other hother
    rw [hget] at hother
    cases hother
    rw [dif_neg hid]

end

theorem walks_walk (ws : Workspace) (passed : List BlockId) (next : Option BlockId) :
    ws.Walks passed next (ws.walk passed next).1 (ws.walk passed next).2 := by
  induction passed, next using walk.induct ws with
  | case1 passed =>
    rw [walk]
    exact .complete
  | case2 passed id hget =>
    rw [walk_missing hget]
    exact .missing hget
  | case3 passed id block hget hback =>
    rw [walk_back hget hback]
    exact .back hget hback
  | case4 passed id block hget hback ih =>
    rw [walk_step hget hback]
    exact .step hget hback ih

/-- The walk from a block to those after it. -/
theorem walks_followers {ws : Workspace} {id : BlockId} {block : Block} (hget : ws.get? id = some block) :
    ws.Walks [id] block.next (ws.followers id).1 (ws.followers id).2 := by
  rw [followers, hget, Option.bind_some]
  exact ws.walks_walk [id] block.next

/-- A walk finds blocks that exist, each of them once and none that was passed before. -/
theorem Walks.found {ws : Workspace} {passed ids : List BlockId} {next : Option BlockId} {stop : ChainEnd}
    (h : ws.Walks passed next ids stop) : ids.Nodup ∧ ids ⊆ ws.ids ∧ ∀ id ∈ ids, id ∉ passed := by
  induction h with
  | complete | missing | back => simp
  | @step passed id block rest stop hget hid _ ih =>
    obtain ⟨hnodup, hsubset, hfree⟩ := ih
    refine ⟨List.nodup_cons.2 ⟨fun hrest => hfree id hrest (List.mem_cons_self ..), hnodup⟩,
      List.cons_subset.2 ⟨mem_ids_of_get? hget, hsubset⟩, ?_⟩
    intro other hother
    rcases List.mem_cons.1 hother with rfl | hother
    · exact hid
    · exact fun hpassed => hfree other hother (List.mem_cons_of_mem _ hpassed)

/-- A walk is not longer than there are blocks. -/
theorem Walks.length_le {ws : Workspace} {passed ids : List BlockId} {next : Option BlockId}
    {stop : ChainEnd} (h : ws.Walks passed next ids stop) : ids.length ≤ ws.size := by
  obtain ⟨hnodup, hsubset, -⟩ := h.found
  have hle := (hnodup.subperm hsubset).length_le
  rwa [Workspace.ids, List.length_map, List.length_range] at hle

end Workspace
end BlockProgram
