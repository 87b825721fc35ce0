import BlockProgram.Proofs.Forest.Canvas
import BlockProgram.Proofs.Forest.Identity
import BlockProgram.Proofs.Number.TotalOrder
import BlockProgram.Proofs.Text.Bytes

/-!
The canvas in reading order. Every block on the canvas of a workspace that was built step by step or loaded
has a position of its own, and the canvas lists the blocks in the order of creation (`Built.placed`). They are
read in the order of their spots:

    y              rows from top to bottom        total order of doubles
    x              from left to right             total order of doubles
    id             on one point                   order of bytes
    creation       on one spot                    the earlier block

Spots are ordered linearly, so the sort can only put the blocks into one order (`Built.reading_order`).
-/

namespace BlockProgram

/-! ### Spots -/

/-- Where a block on the canvas stands. -/
structure Spot where
  position : Position
  id : String
  deriving DecidableEq, Repr

/-- One spot is read before another. -/
inductive Spot.Before (a b : Spot) : Prop
  | row (hy : a.position.y.Precedes b.position.y)
  | column (hy : a.position.y = b.position.y) (hx : a.position.x.Precedes b.position.x)
  | id (hy : a.position.y = b.position.y) (hx : a.position.x = b.position.x)
    (hid : Text.bytes a.id < Text.bytes b.id)

namespace Spot

variable {a b : Spot}

/-- What a spot is ordered by. -/
def key (spot : Spot) : CanvasKey :=
  ⟨spot.position.y.orderKey, spot.position.x.orderKey, spot.id⟩

theorem key_injective : Function.Injective key := by
  rintro ⟨⟨x, y⟩, id⟩ ⟨⟨otherX, otherY⟩, otherId⟩ h
  obtain ⟨hy, hx, hid⟩ := CanvasKey.mk.inj h
  obtain rfl : x = otherX := Binary64.orderKey_injective hx
  obtain rfl : y = otherY := Binary64.orderKey_injective hy
  obtain rfl : id = otherId := hid
  rfl

/-- Spots are read in the order of their keys. -/
theorem before_iff : a.Before b ↔ a.key.lex < b.key.lex := by
  simp only [CanvasKey.lex, key, Prod.Lex.toLex_lt_toLex, Text.lt_iff_bytes_lt,
    ← Binary64.precedes_iff, Binary64.orderKey_injective.eq_iff]
  constructor
  · rintro (hy | ⟨hy, hx⟩ | ⟨hy, hx, hid⟩)
    · exact .inl hy
    · exact .inr ⟨hy, .inl hx⟩
    · exact .inr ⟨hy, .inr ⟨hx, hid⟩⟩
  · rintro (hy | ⟨hy, hx | ⟨hx, hid⟩⟩)
    · exact .row hy
    · exact .column hy hx
    · exact .id hy hx hid

end Spot

namespace Workspace

variable {ws ws' : Workspace} {id other : BlockId} {spot : Spot}

/-- The spot of a block on the canvas. -/
def spot? (ws : Workspace) (id : BlockId) : Option Spot :=
  (ws.get? id).bind fun block => block.position.map fun position => ⟨position, block.id⟩

theorem canvasKey_of_spot? (h : ws.spot? id = some spot) : ws.canvasKey id = spot.key := by
  obtain ⟨block, hget, hspot⟩ := Option.bind_eq_some_iff.1 h
  obtain ⟨position, hposition, rfl⟩ := Option.map_eq_some_iff.1 hspot
  rw [canvasKey, hget, Option.bind_some, hposition]
  rfl

/-! ### Workspaces in the making -/

/-- Workspaces that are built step by step, from nothing or from what was saved. -/
inductive Built : Workspace → Prop
  | empty : Built .empty
  | loaded {value : Json} {ws : Workspace} (h : ofJson value = .ok ws) : Built ws
  | addBlock {ws : Workspace} (h : Built ws) (kind : BlockKind) : Built (ws.addBlock kind).2
  | addTopBlock {ws : Workspace} (h : Built ws) (kind : BlockKind) (position : Position) :
    Built (ws.addTopBlock kind position).2
  | setField {ws : Workspace} (h : Built ws) (id : BlockId) (name value : String) :
    Built (ws.setField id name value)
  | connectInput {ws : Workspace} (h : Built ws) (parent : BlockId) (input : String)
    (child : BlockId) : Built (ws.connectInput parent input child)
  | connectNext {ws : Workspace} (h : Built ws) (previous next : BlockId) :
    Built (ws.connectNext previous next)

/-- The blocks on the canvas have spots and stand in the order of their creation. -/
structure Placed (ws : Workspace) : Prop where
  spots : ∀ id ∈ ws.top, ∃ spot, ws.spot? id = some spot
  created : ws.top.Pairwise fun id other => id.index < other.index

theorem Placed.lt_size (h : ws.Placed) (hid : id ∈ ws.top) : id.index < ws.size := by
  obtain ⟨spot, hspot⟩ := h.spots id hid
  obtain ⟨block, hget, -⟩ := Option.bind_eq_some_iff.1 hspot
  exact mem_ids_iff.1 (mem_ids_of_get? hget)

/-- Blocks that are changed where they stand keep their spots. -/
theorem spot?_modify {change : Block → Block} (hid : ∀ block, (change block).id = block.id)
    (hposition : ∀ block, (change block).position = block.position) :
    (ws.modify id change).spot? other = ws.spot? other := by
  rw [spot?, get?_modify]
  split
  · rw [spot?, Option.bind_map]
    refine congrArg _ (funext fun block => ?_)
    rw [Function.comp_apply, hid, hposition]
  · rfl

theorem Placed.modify (h : ws.Placed) {change : Block → Block}
    (hid : ∀ block, (change block).id = block.id)
    (hposition : ∀ block, (change block).position = block.position) :
    (ws.modify id change).Placed where
  spots other hother := by
    rw [spot?_modify hid hposition]
    exact h.spots other hother
  created := h.created

/-- More blocks do not matter, as long as they are not on the canvas. -/
theorem Placed.keeps (h : ws.Placed) (hkeeps : ws.Keeps ws' fun _ => False) : ws'.Placed where
  spots id hid := by
    rw [hkeeps.top_eq] at hid
    obtain ⟨spot, hspot⟩ := h.spots id hid
    exact ⟨spot, by rw [spot?, hkeeps.get?_eq id (h.lt_size hid) not_false, ← spot?, hspot]⟩
  created := hkeeps.top_eq ▸ h.created

/-- The first block that is new may be put on the canvas, once it has a position. -/
theorem Placed.put (h : ws.Placed) (hkeeps : ws.Keeps ws' fun _ => False) (spot : Spot)
    (hspot : ws'.spot? ⟨ws.size⟩ = some spot) :
    ({ ws' with top := ws'.top ++ [⟨ws.size⟩] } : Workspace).Placed where
  spots id hid := by
    rcases List.mem_append.1 hid with hid | hid
    · exact (h.keeps hkeeps).spots id hid
    · rw [List.mem_singleton.1 hid]
      exact ⟨spot, hspot⟩
  created := by
    rw [hkeeps.top_eq, List.pairwise_append]
    refine ⟨h.created, List.pairwise_singleton .., fun id hid new hnew => ?_⟩
    rw [List.mem_singleton.1 hnew]
    exact h.lt_size hid

theorem Placed.addTopBlock (h : ws.Placed) (kind : BlockKind) (position : Position) :
    (ws.addTopBlock kind position).2.Placed := by
  have hkeeps : ws.Keeps ((ws.addBlock kind).2.modify (ws.addBlock kind).1 fun block =>
      { block with position := some position }) fun _ => False :=
    (keeps_addBlock ws kind).trans_new (keeps_modify ..) le_rfl
  refine h.put hkeeps ⟨position, "b" ++ toString ws.size⟩ ?_
  rw [spot?, get?_modify, if_pos rfl]
  simp [get?, size]

theorem Placed.layOut (h : ws.Placed) (entries : List Entry) : (ws.layOut entries).Placed := by
  induction entries generalizing ws with
  | nil => exact h
  | cons entry rest ih =>
    rw [Workspace.layOut]
    refine ih ?_
    obtain ⟨block, more, hblocks⟩ := entry.chain.exists_blocks_cons ws.size
    have hkeeps : ws.Keeps ⟨ws.blocks ++ (entry.blocks ws.size).toArray, ws.top⟩ fun _ => False := by
      refine ⟨by simp [size], rfl, fun id hid _ => ?_⟩
      rw [get?, Array.getElem?_append_left hid, get?]
    refine h.put hkeeps ⟨entry.position, block.id⟩ ?_
    rw [Entry.blocks, hblocks]
    simp [spot?, get?, size]

/-- However a workspace was built, its canvas is in order. -/
theorem Built.placed (h : ws.Built) : ws.Placed := by
  induction h with
  | empty => exact ⟨fun _ hid => absurd hid List.not_mem_nil, .nil⟩
  | loaded h =>
    obtain ⟨document, -, rfl, -⟩ := ofJson_layout h
    exact Placed.layOut ⟨fun _ hid => absurd hid List.not_mem_nil, .nil⟩ _
  | addBlock _ kind ih => exact ih.keeps (keeps_addBlock _ kind)
  | addTopBlock _ kind position ih => exact ih.addTopBlock kind position
  | setField | connectInput | connectNext =>
    rename_i ih
    exact ih.modify (fun _ => rfl) fun _ => rfl

/-! ### Reading order -/

/-- One block on the canvas is read before another. -/
def ReadBefore (ws : Workspace) (id other : BlockId) : Prop :=
  ∃ spot spot', ws.spot? id = some spot ∧ ws.spot? other = some spot' ∧
    (spot.Before spot' ∨ spot = spot' ∧ id.index < other.index)

theorem readBefore_iff {spot' : Spot} (hspot : ws.spot? id = some spot)
    (hspot' : ws.spot? other = some spot') : ws.ReadBefore id other ↔
      spot.key.lex < spot'.key.lex ∨ spot.key.lex = spot'.key.lex ∧ id.index < other.index := by
  rw [CanvasKey.lex_injective.eq_iff, Spot.key_injective.eq_iff, ← Spot.before_iff]
  constructor
  · rintro ⟨first, second, hfirst, hsecond, h⟩
    cases hspot.symm.trans hfirst
    cases hspot'.symm.trans hsecond
    exact h
  · exact fun h => ⟨spot, spot', hspot, hspot', h⟩

theorem ReadBefore.asymm (h : ws.ReadBefore id other) : ¬ ws.ReadBefore other id := by
  have ⟨spot, spot', hspot, hspot', _⟩ := h
  rw [readBefore_iff hspot hspot'] at h
  rw [readBefore_iff hspot' hspot]
  rintro (hlt | ⟨heq, hindex⟩)
  · rcases h with hgt | ⟨heq, -⟩
    · exact hlt.asymm hgt
    · exact hlt.ne' heq
  · rcases h with hgt | ⟨-, hgt⟩
    · exact hgt.ne' heq
    · omega

/-- The sort leaves no block behind one with a greater key, and those of equal keys as they were. -/
theorem Placed.pairwise_readBefore (h : ws.Placed) : ws.topBlocks.Pairwise ws.ReadBefore := by
  refine List.pairwise_iff_forall_sublist.2 fun {id other} hpair => ?_
  have hperm : ws.topBlocks.Perm ws.top := List.mergeSort_perm ws.top _
  obtain ⟨spot, hspot⟩ := h.spots id (hperm.subset (hpair.subset (by simp)))
  obtain ⟨spot', hspot'⟩ := h.spots other (hperm.subset (hpair.subset (by simp)))
  have hle := List.pairwise_iff_forall_sublist.1 ws.pairwise_topBlocks hpair
  rw [CanvasKey.le_iff, canvasKey_of_spot? hspot, canvasKey_of_spot? hspot'] at hle
  rw [readBefore_iff hspot hspot']
  refine hle.lt_or_eq.imp_right fun heq => ⟨heq, ?_⟩
  have hkeys : ws.canvasKey id = spot'.key ∧ ws.canvasKey other = spot'.key :=
    ⟨(canvasKey_of_spot? hspot).trans (CanvasKey.lex_injective heq), canvasKey_of_spot? hspot'⟩
  have hkept := hpair.filter fun id => decide (ws.canvasKey id = spot'.key)
  rw [filter_topBlocks, List.filter_cons_of_pos (by simpa using hkeys.1),
    List.filter_cons_of_pos (by simpa using hkeys.2), List.filter_nil] at hkept
  exact List.pairwise_iff_forall_sublist.1 h.created (hkept.trans List.filter_sublist)

/-- **Reading order.** The canvas of a workspace that was built step by step or loaded is read as a
permutation of the blocks on it. Each of them has a spot, and one comes before another exactly if its spot
does, or if it was created first on the same spot. -/
theorem Built.reading_order (h : ws.Built) :
    ws.topBlocks.Perm ws.top ∧ (∀ id ∈ ws.top, ∃ spot, ws.spot? id = some spot) ∧
      ∀ (i j : Nat) (id other : BlockId), ws.topBlocks[i]? = some id → ws.topBlocks[j]? = some other →
        (i < j ↔ ws.ReadBefore id other) := by
  have hpairwise := h.placed.pairwise_readBefore
  refine ⟨List.mergeSort_perm ws.top _, h.placed.spots, fun i j id other hid hother => ?_⟩
  obtain ⟨hi, rfl⟩ := List.getElem?_eq_some_iff.1 hid
  obtain ⟨hj, rfl⟩ := List.getElem?_eq_some_iff.1 hother
  rw [List.pairwise_iff_getElem] at hpairwise
  refine ⟨hpairwise i j hi hj, fun hbefore => ?_⟩
  rcases Nat.lt_trichotomy i j with hlt | rfl | hgt
  · exact hlt
  · exact absurd hbefore hbefore.asymm
  · exact absurd hbefore (hpairwise j i hj hi hgt).asymm

end Workspace

/-- Two loaded blocks on one spot and with one id, and a third that was added a signed zero higher and at
no number to the right. -/
def crowdedWorkspace : Workspace :=
  (takenIdWorkspace.addTopBlock .numberLiteral ⟨.ofParts true (Binary64.infinity + 1), .neg .zero⟩).2

/-- The third block is read first and the others in the order of their creation. -/
theorem crowdedWorkspace_order :
    crowdedWorkspace.Built ∧ crowdedWorkspace.topBlocks = [⟨2⟩, ⟨0⟩, ⟨1⟩] := by
  have hbuilt : crowdedWorkspace.Built := .addTopBlock (.loaded takenId_loaded) _ _
  obtain ⟨hperm, -, horder⟩ := Workspace.Built.reading_order hbuilt
  have htop : crowdedWorkspace.top.Perm [⟨2⟩, ⟨0⟩, ⟨1⟩] := by decide
  have hread : crowdedWorkspace.topBlocks.Pairwise crowdedWorkspace.ReadBefore :=
    List.pairwise_iff_getElem.2 fun i j hi hj hij =>
      (horder i j _ _ (List.getElem?_eq_getElem hi) (List.getElem?_eq_getElem hj)).1 hij
  have hexpected : [⟨2⟩, ⟨0⟩, ⟨1⟩].Pairwise crowdedWorkspace.ReadBefore := by
    have hhigher : ∀ id ∈ [(⟨0⟩ : BlockId), ⟨1⟩], crowdedWorkspace.ReadBefore ⟨2⟩ id := by
      simp only [List.forall_mem_cons]
      exact ⟨⟨_, _, rfl, rfl, .inl (.row (.zero rfl rfl rfl rfl))⟩,
        ⟨_, _, rfl, rfl, .inl (.row (.zero rfl rfl rfl rfl))⟩, nofun⟩
    have hearlier : crowdedWorkspace.ReadBefore ⟨0⟩ ⟨1⟩ :=
      ⟨_, _, rfl, rfl, .inr ⟨rfl, Nat.zero_lt_one⟩⟩
    exact .cons hhigher (.cons (by simpa using hearlier) (List.pairwise_singleton ..))
  exact ⟨hbuilt, (hperm.trans htop).eq_of_pairwise (fun _ _ _ _ hlt hgt => absurd hgt hlt.asymm)
    hread hexpected⟩

end BlockProgram
