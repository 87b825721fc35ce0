import BlockProgram.Workspace.Basic

/-!
The order in which the blocks on the canvas are read: from top to bottom, then from left to right,
then by id. Coordinates are compared in the total order of doubles, so zeros of either sign,
infinities and NaNs all have their place; blocks of equal keys stay in the order of creation.
-/

namespace BlockProgram

/-- What blocks on the canvas are ordered by. -/
structure CanvasKey where
  y : Int
  x : Int
  id : String
  deriving DecidableEq, Repr

namespace CanvasKey

/-- Whether the first key does not come after the second. -/
def le (a b : CanvasKey) : Bool :=
  a.y < b.y || (a.y = b.y && (a.x < b.x || (a.x = b.x && !(b.id < a.id : Bool))))

end CanvasKey

namespace Workspace

/-- Where a block without a position is taken to lie. -/
def farCorner : Position :=
  ⟨.largest, .largest⟩

/-- The key of a block, and of a reference to none. -/
def canvasKey (ws : Workspace) (id : BlockId) : CanvasKey :=
  let block? := ws.get? id
  let position := (block?.bind Block.position).getD farCorner
  ⟨position.y.orderKey, position.x.orderKey, (block?.map Block.id).getD ""⟩

/-- The blocks on the canvas in reading order. -/
def topBlocks (ws : Workspace) : List BlockId :=
  ws.top.mergeSort fun a b => (ws.canvasKey a).le (ws.canvasKey b)

end Workspace
end BlockProgram
