import BlockProgram.Generator.Program
import BlockProgram.Proofs.Forest.Load

/-!
Changing the fields of blocks. The kinds and the links of the blocks stay, so an edited workspace holds
the same forest with its blocks edited, its canvas is read in the same order, and the same custom types
lack a text.
-/

namespace BlockProgram

/-- What becomes of the fields of each block. -/
abbrev Edit := BlockId → Table String → Table String

/-- The block with its fields changed. -/
def Block.edit (change : Table String → Table String) (block : Block) : Block :=
  { block with fields := change block.fields }

@[simp]
theorem Block.kind_edit (change : Table String → Table String) (block : Block) :
    (block.edit change).kind = block.kind :=
  rfl

/-- The workspace with the fields of its blocks changed. -/
def Workspace.edit (ws : Workspace) (edit : Edit) : Workspace :=
  { ws with blocks := ws.blocks.mapIdx fun place block => block.edit (edit ⟨place⟩) }

mutual

/-- The stack with the fields of its blocks changed. -/
def Stack.edit (edit : Edit) : Stack → Stack
  | .nil => .nil
  | .cons id block sockets rest =>
    .cons id (block.edit (edit id)) (sockets.edit edit) (rest.edit edit)

def Sockets.edit (edit : Edit) : Sockets → Sockets
  | .nil => .nil
  | .cons name stack rest => .cons name (stack.edit edit) (rest.edit edit)

end

variable {ws : Workspace} {change : Edit}

theorem Sockets.find_edit (edit : Edit) (sockets : Sockets) (input : String) :
    (sockets.edit edit).find input = (sockets.find input).edit edit := by
  induction sockets with
  | nil => rw [Sockets.edit, find, Stack.edit]
  | cons name stack rest ih =>
    rw [Sockets.edit, find, find, ih]
    split <;> rfl

mutual

theorem Stack.ids_edit (edit : Edit) (stack : Stack) : (stack.edit edit).ids = stack.ids := by
  match stack with
  | .nil => rw [Stack.edit]
  | .cons id block sockets rest =>
    rw [Stack.edit, Stack.ids, Stack.ids, Sockets.ids_edit edit sockets, Stack.ids_edit edit rest]

theorem Sockets.ids_edit (edit : Edit) (sockets : Sockets) : (sockets.edit edit).ids = sockets.ids := by
  match sockets with
  | .nil => rw [Sockets.edit]
  | .cons name stack rest =>
    rw [Sockets.edit, Sockets.ids, Sockets.ids, Stack.ids_edit edit stack, Sockets.ids_edit edit rest]

end

/-! ### Edited workspaces -/

namespace Edit

/-- Nothing is changed. -/
def keep : Edit :=
  fun _ fields => fields

/-- A field of one block is written. -/
def write (v : BlockId) (name value : String) : Edit :=
  fun id fields => if id = v then Table.insert name value fields else fields

end Edit

namespace Workspace

theorem get?_edit (id : BlockId) :
    (ws.edit change).get? id = (ws.get? id).map (Block.edit (change id)) := by
  rw [get?, get?, Workspace.edit, Array.getElem?_mapIdx]

theorem edit_keep (ws : Workspace) : ws.edit .keep = ws := by
  have hblocks : (ws.edit .keep).blocks = ws.blocks := by
    refine Array.ext_getElem? ?_
    intro place
    rw [Workspace.edit, Array.getElem?_mapIdx]
    cases ws.blocks[place]? <;> rfl
  exact congrArg (Workspace.mk · ws.top) hblocks

theorem edit_write (ws : Workspace) (v : BlockId) (name value : String) :
    ws.edit (.write v name value) = ws.setField v name value := by
  have hblocks : (ws.edit (.write v name value)).blocks = (ws.setField v name value).blocks := by
    refine Array.ext_getElem? ?_
    intro place
    rw [Workspace.edit, setField, modify, Array.getElem?_mapIdx, Array.getElem?_modify]
    by_cases hplace : v.index = place
    · subst hplace
      simp [Block.edit, Edit.write]
    · have hne : (⟨place⟩ : BlockId) ≠ v := by
        rintro rfl
        exact hplace rfl
      simp [Block.edit, Edit.write, hplace, hne]
  exact congrArg (Workspace.mk · ws.top) hblocks

/-- The blocks on the canvas are read in the same order. -/
theorem topBlocks_edit (ws : Workspace) (change : Edit) : (ws.edit change).topBlocks = ws.topBlocks := by
  have hkey (id : BlockId) : (ws.edit change).canvasKey id = ws.canvasKey id := by
    rw [canvasKey, canvasKey, get?_edit]
    cases ws.get? id <;> rfl
  rw [topBlocks, topBlocks]
  simp only [hkey]
  rfl

theorem findSome?_mapIdx {α β : Type} {found : α → Option β} {change : Nat → α → α}
    (h : ∀ place a, found (change place a) = found a) (as : List α) :
    (as.mapIdx change).findSome? found = as.findSome? found := by
  induction as generalizing change with
  | nil => rfl
  | cons a rest ih =>
    rw [List.mapIdx_cons, List.findSome?_cons, List.findSome?_cons, h,
      ih fun place => h (place + 1)]

/-- The same custom types lack a text. -/
theorem missingLiteral_edit (g : Generator) :
    (ws.edit change).blocks.toList.findSome? g.missingLiteral? =
      ws.blocks.toList.findSome? g.missingLiteral? := by
  rw [Workspace.edit, Array.toList_mapIdx]
  refine findSome?_mapIdx (fun place block => ?_) _
  rfl

end Workspace

mutual

theorem Stack.At.edit {first? : Option BlockId} {stack : Stack} (h : stack.At ws first?) :
    (stack.edit change).At (ws.edit change) first? := by
  match stack with
  | .nil => exact h
  | .cons id block sockets rest =>
    rcases h with ⟨hfirst, hget, hsockets, hrest⟩
    refine ⟨hfirst, ?_, hsockets.edit, hrest.edit⟩
    rw [Workspace.get?_edit, hget]
    rfl

theorem Sockets.At.edit {inputs : Table BlockId} {sockets : Sockets} (h : sockets.At ws inputs) :
    (sockets.edit change).At (ws.edit change) inputs := by
  match sockets with
  | .nil => exact h
  | .cons name stack rest =>
    rcases h with ⟨id, others, hinputs, hstack, hrest⟩
    exact ⟨id, others, hinputs, hstack.edit, hrest.edit⟩

end

/-- The edited workspace holds the edited forest. -/
theorem Workspace.Forest.edit {tops : List BlockId} {forest : List Stack} (h : ws.Forest tops forest)
    (change : Edit) :
    (ws.edit change).Forest tops (forest.map (Stack.edit change)) := by
  refine ⟨List.forall₂_map_right_iff.2 (h.at_eq.imp fun _ _ hstack => hstack.edit), ?_⟩
  rw [List.flatMap_map]
  simp only [Stack.ids_edit]
  exact h.nodup

end BlockProgram
