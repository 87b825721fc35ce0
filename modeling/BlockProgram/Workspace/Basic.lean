import BlockProgram.Block.Kind
import BlockProgram.Number.Binary64
import BlockProgram.Table

/-!
The block graph of one editor. Blocks are kept in the order of their creation and refer to each other
by their place in it. Nothing is asked of the links: they may be shared, lead back or lead to a block
that does not exist.
-/

namespace BlockProgram

/-- A block of a workspace, by its place in the order of creation. -/
structure BlockId where
  index : Nat
  deriving DecidableEq, Repr, Inhabited

/-- Where a block lies on the editor's canvas. -/
structure Position where
  x : Binary64
  y : Binary64
  deriving DecidableEq, Repr

/-- One block: its fields, what is plugged into its inputs and the block after it in its chain. -/
structure Block where
  id : String
  kind : BlockKind
  fields : Table String := []
  inputs : Table BlockId := []
  next : Option BlockId := none
  position : Option Position := none
  deriving DecidableEq, Repr

namespace Block

def field? (block : Block) (name : String) : Option String :=
  Table.find? name block.fields

def input? (block : Block) (name : String) : Option BlockId :=
  Table.find? name block.inputs

end Block

/-- The blocks of an editor, and those that stand on its canvas rather than in other blocks. -/
structure Workspace where
  blocks : Array Block := #[]
  top : List BlockId := []
  deriving Repr

namespace Workspace

def empty : Workspace := {}

def size (ws : Workspace) : Nat :=
  ws.blocks.size

def get? (ws : Workspace) (id : BlockId) : Option Block :=
  ws.blocks[id.index]?

/-- The ids of all blocks, in the order of creation. -/
def ids (ws : Workspace) : List BlockId :=
  (List.range ws.size).map BlockId.mk

/-- The workspace with one more block, and the id of that block. -/
def addBlock (ws : Workspace) (kind : BlockKind) : BlockId × Workspace :=
  let place := ws.size
  (⟨place⟩, { ws with blocks := ws.blocks.push { id := "b" ++ toString place, kind } })

/-- Changes a block. Nothing happens if there is no such block. -/
def modify (ws : Workspace) (id : BlockId) (change : Block → Block) : Workspace :=
  { ws with blocks := ws.blocks.modify id.index change }

def setField (ws : Workspace) (id : BlockId) (name value : String) : Workspace :=
  ws.modify id fun block => { block with fields := Table.insert name value block.fields }

def connectInput (ws : Workspace) (parent : BlockId) (input : String) (child : BlockId) : Workspace :=
  ws.modify parent fun block => { block with inputs := Table.insert input child block.inputs }

def connectNext (ws : Workspace) (previous next : BlockId) : Workspace :=
  ws.modify previous fun block => { block with next := some next }

/-- Puts a block on the canvas. -/
def place (ws : Workspace) (id : BlockId) (position : Position) : Workspace :=
  let ws := ws.modify id fun block => { block with position := some position }
  { ws with top := ws.top ++ [id] }

/-- The workspace with one more block on the canvas, and the id of that block. -/
def addTopBlock (ws : Workspace) (kind : BlockKind) (position : Position) : BlockId × Workspace :=
  let (id, ws) := ws.addBlock kind
  (id, ws.place id position)

theorem get?_eq_none_iff {ws : Workspace} {id : BlockId} :
    ws.get? id = none ↔ ws.size ≤ id.index := by
  simp [get?, size]

theorem mem_ids_iff {ws : Workspace} {id : BlockId} : id ∈ ws.ids ↔ id.index < ws.size := by
  cases id
  simp [ids]

theorem mem_ids_of_get? {ws : Workspace} {id : BlockId} {block : Block}
    (h : ws.get? id = some block) : id ∈ ws.ids := by
  rw [mem_ids_iff]
  exact Nat.lt_of_not_le fun hle => by simp [get?_eq_none_iff.2 hle] at h

end Workspace
end BlockProgram
