import BlockProgram.Workspace.Basic

/-!
The chain of a block: the blocks that follow it through `next` links. Links may lead back or lead
nowhere, so a chain comes with how it ends. Its blocks are distinct and exist; walking it ends because
each block of it was not on the chain before.
-/

namespace BlockProgram

/-- How a chain ends. -/
inductive ChainEnd where
  /-- The last block has no next one. -/
  | complete
  /-- The last block leads to one that does not exist. -/
  | missing (id : BlockId)
  /-- The last block leads back to one of the chain. -/
  | back (id : BlockId)
  deriving DecidableEq, Repr

namespace Workspace

/-- How many blocks are not in a list. -/
def freeCount (ws : Workspace) (taken : List BlockId) : Nat :=
  (ws.ids.filter fun id => id ∉ taken).length

/-- Taking a block that was free leaves fewer free blocks. -/
theorem freeCount_cons_lt {ws : Workspace} {id : BlockId} {taken : List BlockId}
    (hid : id ∈ ws.ids) (hfree : id ∉ taken) :
    ws.freeCount (id :: taken) < ws.freeCount taken := by
  unfold freeCount
  have hsplit : (ws.ids.filter fun other => other ∉ id :: taken) =
      (ws.ids.filter fun other => other ∉ taken).filter fun other => other ≠ id := by
    rw [List.filter_filter]
    congr 1
    funext other
    simp
  rw [hsplit]
  refine Nat.lt_of_le_of_ne (List.length_filter_le ..) fun heq => ?_
  have hall := List.length_filter_eq_length_iff.1 heq id (List.mem_filter.2 ⟨hid, by simpa using hfree⟩)
  simp at hall

/-- No more blocks are free than there are. -/
theorem freeCount_le_size (ws : Workspace) (taken : List BlockId) : ws.freeCount taken ≤ ws.size := by
  have := List.length_filter_le (fun id => decide (id ∉ taken)) ws.ids
  simpa [freeCount, ids] using this

/-- The blocks from `next` on that are not among those already `passed`, and how the walk ends. -/
def walk (ws : Workspace) (passed : List BlockId) (next : Option BlockId) :
    List BlockId × ChainEnd :=
  match next with
  | none => ([], .complete)
  | some id =>
    match _h : ws.get? id with
    | none => ([], .missing id)
    | some block =>
      if _hback : id ∈ passed then ([], .back id)
      else
        let rest := ws.walk (id :: passed) block.next
        (id :: rest.1, rest.2)
termination_by ws.freeCount passed
decreasing_by exact freeCount_cons_lt (mem_ids_of_get? _h) _hback

/-- The chain that starts at `first`. -/
def chainFrom (ws : Workspace) (first : Option BlockId) : List BlockId × ChainEnd :=
  ws.walk [] first

/-- The chain after a block. -/
def followers (ws : Workspace) (id : BlockId) : List BlockId × ChainEnd :=
  ws.walk [id] ((ws.get? id).bind Block.next)

end Workspace
end BlockProgram
