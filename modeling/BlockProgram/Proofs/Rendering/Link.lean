import BlockProgram.Block.Template
import BlockProgram.Workspace.Basic
import Mathlib

/-!
Links between blocks. A block links to the block after it and to the blocks in those of its inputs that
its template reads; what is plugged into any other input is never rendered. A block from which every
path of links ends lies on no cycle, and neither does any block that it leads to.
-/

namespace BlockProgram

/-- The inputs that the template of a kind reads. -/
def BlockKind.inputs (kind : BlockKind) : List String :=
  kind.template.pieces.filterMap Piece.input?

theorem Piece.mem_inputs {piece : Piece} {kind : BlockKind} {input : String}
    (hmem : piece ∈ kind.template.pieces) (h : piece.input? = some input) : input ∈ kind.inputs :=
  List.mem_filterMap.2 ⟨piece, hmem, h⟩

namespace Workspace

variable {ws : Workspace} {a b c : BlockId}

/-- Block `b` is plugged into an input that the template of block `a` reads. -/
def Plugs (ws : Workspace) (a b : BlockId) : Prop :=
  ∃ block, ws.get? a = some block ∧ ∃ input ∈ block.kind.inputs, block.input? input = some b

/-- Block `b` comes after block `a` in its chain. -/
def Precedes (ws : Workspace) (a b : BlockId) : Prop :=
  ∃ block, ws.get? a = some block ∧ block.next = some b

/-- One of the links that rendering follows leads from block `a` to block `b`. -/
def Link (ws : Workspace) (a b : BlockId) : Prop :=
  ws.Plugs a b ∨ ws.Precedes a b

/-- Some path of one link or more leads from a block back to it. -/
def OnCycle (ws : Workspace) (a : BlockId) : Prop :=
  Relation.TransGen ws.Link a a

/-- Every path of links from a block ends. -/
def Ends (ws : Workspace) (a : BlockId) : Prop :=
  Acc (fun next previous => ws.Link previous next) a

theorem Ends.of_link (h : ∀ b, ws.Link a b → ws.Ends b) : ws.Ends a :=
  Acc.intro a h

theorem Ends.reaches (h : ws.Ends a) (hab : Relation.ReflTransGen ws.Link a b) : ws.Ends b := by
  induction hab with
  | refl => exact h
  | tail _ hlink ih => exact ih.inv hlink

/-- A block from which every path ends is on no cycle. -/
theorem Ends.not_onCycle (h : ws.Ends a) : ¬ ws.OnCycle a := by
  induction h with
  | intro a _ ih =>
    intro hcycle
    -- the cycle can be entered at the block after `a`, from which every path ends too
    obtain ⟨b, hab, hba⟩ := Relation.TransGen.head'_iff.1 hcycle
    exact ih b hab (Relation.TransGen.tail' hba hab)

/-- No block leads back to one from which every path ends. -/
theorem Ends.not_reaches_back (h : ws.Ends a) (hab : ws.Link a b) :
    ¬ Relation.ReflTransGen ws.Link b a :=
  fun hba => h.not_onCycle (Relation.TransGen.head' hab hba)

end Workspace
end BlockProgram
