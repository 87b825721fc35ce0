import BlockProgram.Proofs.Forest.Alike
import BlockProgram.Proofs.Forest.Success

/-!
The order of the nodes on the canvas of a document is no matter, as long as each of them gives an id
(`Workspace.generate_of_perm`). The blocks have other numbers then, and those without an id of their own
other ids, but the canvas is read in the order of positions and of ids:

    document      nodes        in any order
    canvas        keys         y, then x, then the id that the node gives
    program       chains       the same chains in the same order, read alike

Keys are ordered linearly, and no two nodes of a document that loads give the same id, so the nodes have
one order only.
-/

namespace BlockProgram

/-! ### Keys -/

namespace CanvasKey

variable {a b c : CanvasKey}

/-- A key in the order of its parts. -/
def lex (a : CanvasKey) : ℤ ×ₗ ℤ ×ₗ String :=
  toLex (a.y, toLex (a.x, a.id))

theorem lex_injective : Function.Injective lex := by
  rintro ⟨ay, ax, aid⟩ ⟨otherY, bx, bid⟩ h
  cases h
  rfl

theorem le_iff : a.le b = true ↔ a.lex ≤ b.lex := by
  simp only [le, lex, Prod.Lex.toLex_le_toLex, Bool.or_eq_true, Bool.and_eq_true, decide_eq_true_eq,
    Bool.not_eq_true', decide_eq_false_iff_not, not_lt]

theorem le_total (a b : CanvasKey) : (a.le b || b.le a) = true := by
  rw [Bool.or_eq_true, le_iff, le_iff]
  exact LinearOrder.le_total _ _

theorem le_trans (hab : a.le b = true) (hbc : b.le c = true) : a.le c = true :=
  le_iff.2 ((le_iff.1 hab).trans (le_iff.1 hbc))

theorem le_antisymm (hab : a.le b = true) (hba : b.le a = true) : a = b :=
  lex_injective ((le_iff.1 hab).antisymm (le_iff.1 hba))

end CanvasKey

/-! ### Nodes on the canvas -/

/-- What the first node of a chain says about its block. -/
def Chain.label : Chain → NodeLabel
  | .last (.mk label _) | .link (.mk label _) _ => label

theorem Chain.exists_labels_cons (chain : Chain) : ∃ more, chain.labels = chain.label :: more := by
  match chain with
  | .last (.mk label inputs) => exact ⟨_, by rw [labels, Node.labels, Chain.label]⟩
  | .link (.mk label inputs) rest =>
    exact ⟨_, by rw [labels, Node.labels, Chain.label, List.cons_append]⟩

/-- A chain starts with the block of its first node. -/
theorem Chain.exists_first_block (chain : Chain) (n : Nat) :
    ∃ block rest, chain.blocks n = block :: rest ∧
      block.id = chain.label.id?.getD ("b" ++ toString n) := by
  obtain ⟨block, rest, hblocks⟩ := chain.exists_blocks_cons n
  obtain ⟨more, hlabels⟩ := chain.exists_labels_cons
  have hids := chain.map_blocks (fun _ _ _ _ => rfl : Block.Unlinked Block.id) n
  rw [hblocks, hlabels, List.zipIdx_cons, List.map_cons, List.map_cons] at hids
  exact ⟨block, rest, hblocks, (List.cons.inj hids).1⟩

theorem Chain.label_ofJson (node : Json) : (Chain.ofJson node).label = .ofJson node := by
  cases hnext : nextNode? node with
  | none => rw [Chain.ofJson_last hnext, Chain.label]
  | some next => rw [Chain.ofJson_link hnext, Chain.label]

/-- The key of the block of a node that gives an id. -/
def Entry.key (entry : Entry) : CanvasKey :=
  ⟨entry.position.y.orderKey, entry.position.x.orderKey, entry.chain.label.id?.getD ""⟩

/-- All nodes on the canvas give ids. -/
def Named (entries : List Entry) : Prop :=
  ∀ entry ∈ entries, entry.chain.label.id?.isSome = true

theorem ids_sublist {entries : List Entry} (hnamed : Named entries) :
    (entries.map fun entry => entry.key.id).Sublist
      (givenIds (entries.flatMap fun entry => entry.chain.labels)) := by
  induction entries with
  | nil => exact .slnil
  | cons entry rest ih =>
    obtain ⟨hentry, hrest⟩ := List.forall_mem_cons.1 hnamed
    obtain ⟨given, hgiven⟩ := Option.isSome_iff_exists.1 hentry
    obtain ⟨more, hlabels⟩ := entry.chain.exists_labels_cons
    have hid : entry.key.id = given := by rw [Entry.key, hgiven, Option.getD_some]
    rw [List.map_cons, List.flatMap_cons, hlabels, givenIds_append, givenIds,
      List.filterMap_cons_some hgiven, hid, List.cons_append]
    exact ((ih hrest).trans (List.sublist_append_right ..)).cons_cons given

/-- Nodes on the canvas with the same id are the same, if no id of the document is given twice. -/
theorem Acceptable.eq_of_key {entries : List Entry} (hnamed : Named entries)
    (h : Acceptable (entries.flatMap fun entry => entry.chain.labels)) {entry other : Entry}
    (hentry : entry ∈ entries) (hother : other ∈ entries) (hkey : entry.key = other.key) :
    entry = other := by
  have hids : (entries.map fun entry => entry.key.id).Nodup := h.nodup.sublist (ids_sublist hnamed)
  exact List.inj_on_of_nodup_map hids hentry hother (congrArg CanvasKey.id hkey)

namespace Workspace

variable {ws ws' : Workspace} {entries : List Entry} {entry : Entry} {id : BlockId} {g : Generator}

/-- The blocks of an entry stand in a workspace from a number on. -/
def Places (ws : Workspace) (id : BlockId) (entry : Entry) : Prop :=
  ws.HasAt id.index (entry.blocks id.index)

/-- The first block of an entry has the position of the entry and the id that its node gives. -/
theorem Places.canvasKey_eq (h : ws.Places id entry) (hid : entry.chain.label.id?.isSome = true) :
    ws.canvasKey id = entry.key := by
  obtain ⟨given, hgiven⟩ := Option.isSome_iff_exists.1 hid
  obtain ⟨block, rest, hblocks, hblock⟩ := entry.chain.exists_first_block id.index
  rw [Places, Entry.blocks, hblocks, List.modifyHead_cons] at h
  have hget : ws.get? id = some { block with position := some entry.position } := h.head
  rw [hgiven, Option.getD_some] at hblock
  rw [canvasKey, hget, Entry.key, hgiven, ← hblock]
  rfl

theorem keys_eq {tops : List BlockId} (hplaces : List.Forall₂ ws.Places tops entries)
    (hnamed : Named entries) : tops.map ws.canvasKey = entries.map Entry.key := by
  induction hplaces with
  | nil => rfl
  | @cons id entry _ _ hfirst _ ih =>
    obtain ⟨hid, hrest⟩ := List.forall_mem_cons.1 hnamed
    rw [List.map_cons, List.map_cons, hfirst.canvasKey_eq hid, ih hrest]

/-- The entries of a layout stand in it one after the other. -/
theorem places_layOut (ws : Workspace) (entries : List Entry) :
    ∃ tops, (ws.layOut entries).top = ws.top ++ tops ∧
      List.Forall₂ (ws.layOut entries).Places tops entries := by
  induction entries generalizing ws with
  | nil => exact ⟨[], (List.append_nil _).symm, .nil⟩
  | cons entry rest ih =>
    obtain ⟨tops, htops, hrest⟩ :=
      ih ⟨ws.blocks ++ (entry.blocks ws.size).toArray, ws.top ++ [⟨ws.size⟩]⟩
    have hplaced := hasAt_layOut
      ⟨ws.blocks ++ (entry.blocks ws.size).toArray, ws.top ++ [⟨ws.size⟩]⟩ rest
    rw [Array.toList_append] at hplaced
    have hfirst := hplaced.right
    rw [Nat.zero_add, Array.length_toList] at hfirst
    rw [layOut]
    exact ⟨⟨ws.size⟩ :: tops, by rw [htops, List.append_assoc]; rfl, .cons hfirst hrest⟩

theorem keys_le_trans (ws : Workspace) (a b c : BlockId) (hab : (ws.canvasKey a).le (ws.canvasKey b) = true)
    (hbc : (ws.canvasKey b).le (ws.canvasKey c) = true) :
    (ws.canvasKey a).le (ws.canvasKey c) = true :=
  CanvasKey.le_trans hab hbc

theorem keys_le_total (ws : Workspace) (a b : BlockId) :
    ((ws.canvasKey a).le (ws.canvasKey b) || (ws.canvasKey b).le (ws.canvasKey a)) = true :=
  CanvasKey.le_total _ _

/-- Blocks are read in the order of their keys. -/
theorem pairwise_topBlocks (ws : Workspace) :
    ws.topBlocks.Pairwise fun a b => (ws.canvasKey a).le (ws.canvasKey b) = true :=
  List.pairwise_mergeSort ws.keys_le_trans ws.keys_le_total ws.top

/-- Blocks of one key are read as they stand on the canvas. -/
theorem filter_topBlocks (ws : Workspace) (key : CanvasKey) :
    (ws.topBlocks.filter fun id => ws.canvasKey id = key) =
      ws.top.filter fun id => ws.canvasKey id = key := by
  generalize hkeyed : (fun id => decide (ws.canvasKey id = key)) = keyed
  have hequal : (ws.top.filter keyed).Pairwise fun a b => (ws.canvasKey a).le (ws.canvasKey b) = true := by
    refine List.pairwise_iff_forall_sublist.2 fun {a b} hab => ?_
    have hmem (id : BlockId) (hid : id ∈ [a, b]) : ws.canvasKey id = key := by
      have hkey := (List.mem_filter.1 (hab.subset hid)).2
      rw [← hkeyed] at hkey
      exact of_decide_eq_true hkey
    rw [CanvasKey.le_iff, hmem a (by simp), hmem b (by simp)]
  have hsublist := (List.sublist_mergeSort ws.keys_le_trans ws.keys_le_total hequal
    List.filter_sublist).filter keyed
  simp only [List.filter_filter, Bool.and_self] at hsublist
  exact (hsublist.eq_of_length ((List.mergeSort_perm ws.top _).filter keyed).length_eq.symm).symm

/-- The blocks on the canvas are read in the order of the keys of their entries. -/
theorem exists_reading_order (hplaces : List.Forall₂ ws.Places ws.top entries)
    (hnamed : Named entries) : ∃ ordered, ordered.Perm entries ∧
      List.Forall₂ ws.Places ws.topBlocks ordered ∧
      ordered.Pairwise fun entry other => entry.key.le other.key = true := by
  have hperm : ws.topBlocks.Perm ws.top := List.mergeSort_perm ws.top _
  obtain ⟨ordered, hordered, hentries⟩ := List.perm_comp_forall₂ hperm hplaces
  refine ⟨ordered, hentries, hordered, ?_⟩
  have hkeys : ws.topBlocks.map ws.canvasKey = ordered.map Entry.key :=
    keys_eq hordered fun entry hentry => hnamed entry (hentries.subset hentry)
  have hsorted : (ws.topBlocks.map ws.canvasKey).Pairwise fun a b => a.le b = true := by
    rw [List.pairwise_map]
    exact ws.pairwise_topBlocks
  rwa [hkeys, List.pairwise_map] at hsorted

end Workspace

/-! ### Kinds on the canvas -/

/-- The kind of the block of a node. -/
def NodeLabel.kind (label : NodeLabel) : BlockKind :=
  .ofTypeName (label.type?.getD "")

namespace Workspace

variable {g : Generator}

theorem kinds_layOut (ws : Workspace) (entries : List Entry) :
    (ws.layOut entries).blocks.toList.map Block.kind = ws.blocks.toList.map Block.kind ++
      (entries.flatMap fun entry => entry.chain.labels).map NodeLabel.kind := by
  have hunlinked : Block.Unlinked Block.kind := fun _ _ _ _ => rfl
  rw [map_blocks_layOut hunlinked]
  generalize (entries.flatMap fun entry => entry.chain.labels) = labels
  conv_rhs => rw [← List.zipIdx_map_fst ws.size labels, List.map_map]
  rfl

theorem spelled_iff_kinds {ws : Workspace} : ws.Spelled g ↔
    ∀ name, .custom name ∈ ws.blocks.toList.map Block.kind → (g.literal? name).isSome := by
  constructor
  · intro h name hmem
    obtain ⟨block, hblock, hkind⟩ := List.mem_map.1 hmem
    obtain ⟨i, hi⟩ := List.mem_iff_getElem?.1 hblock
    rw [Array.getElem?_toList] at hi
    exact h ⟨i⟩ block name hi hkind
  · intro h id block name hget hkind
    rw [get?, ← Array.getElem?_toList] at hget
    exact h name (List.mem_map.2 ⟨block, List.mem_of_getElem? hget, hkind⟩)

/-- Which custom types must have a text depends on the labels of the nodes, but not on their order. -/
theorem spelled_layout_perm {document document' : Document}
    (h : document.labels.Perm document'.labels) :
    document.layout.Spelled g ↔ document'.layout.Spelled g := by
  rw [spelled_iff_kinds, spelled_iff_kinds, Document.layout, Document.layout, kinds_layOut, kinds_layOut]
  exact forall_congr' fun name => imp_congr_left ((h.map NodeLabel.kind).append_left _).mem_iff

end Workspace

/-! ### Documents in another order -/

namespace Workspace

variable {ws ws' : Workspace} {g : Generator}

/-- The stacks of the same entries are read alike. -/
theorem alike_stacks {tops tops' : List BlockId} {forest forest' : List Stack} {entries : List Entry}
    (hplaces : List.Forall₂ ws.Places tops entries) (hplaces' : List.Forall₂ ws'.Places tops' entries)
    (hat : List.Forall₂ (fun top stack => stack.At ws (some top)) tops forest)
    (hat' : List.Forall₂ (fun top stack => stack.At ws' (some top)) tops' forest') :
    List.Forall₂ (fun stack stack' : Stack =>
      Segment.AllAlike (stack.segments g Segment.spent) (stack'.segments g Segment.spent))
      forest forest' := by
  induction hplaces generalizing tops' forest forest' with
  | nil =>
    cases hplaces'
    cases hat
    cases hat'
    exact .nil
  | @cons top entry _ _ hfirst _ ih =>
    cases hplaces' with
    | cons hfirst' hrest' =>
      cases hat with
      | cons hstack hat =>
        cases hat' with
        | cons hstack' hat' =>
          exact .cons (Chain.twins hfirst hfirst' _ _ hstack hstack') (ih hrest' hat hat')

/-- Two documents with the same nodes on their canvas, each of which gives an id, are read in one
order. -/
theorem agree_of_perm {value value' : Json} {document document' : Document}
    (hdocument : Document.ofJson? value = some document)
    (hdocument' : Document.ofJson? value' = some document') (hload : ofJson value = .ok ws)
    (hload' : ofJson value' = .ok ws') (hperm : document.entries.Perm document'.entries)
    (hnamed : Named document.entries) (g : Generator) : Agree (g.generate ws) (g.generate ws') := by
  have hnamed' : Named document'.entries := fun entry hentry => hnamed entry (hperm.symm.subset hentry)
  obtain ⟨found, hfound, hws, haccept⟩ := ofJson_layout hload
  obtain rfl : document = found := Option.some.inj (hdocument.symm.trans hfound)
  obtain ⟨found', hfound', hws', -⟩ := ofJson_layout hload'
  obtain rfl : document' = found' := Option.some.inj (hdocument'.symm.trans hfound')
  obtain ⟨tops, htops, hplaces⟩ := places_layOut .empty document.entries
  obtain ⟨tops', htops', hplaces'⟩ := places_layOut .empty document'.entries
  rw [← Document.layout, ← hws] at htops hplaces
  rw [← Document.layout, ← hws'] at htops' hplaces'
  obtain ⟨ordered, hordered, hread, hsorted⟩ :=
    exists_reading_order (htops ▸ hplaces : List.Forall₂ ws.Places ws.top _) hnamed
  obtain ⟨ordered', hordered', hread', hsorted'⟩ :=
    exists_reading_order (htops' ▸ hplaces' : List.Forall₂ ws'.Places ws'.top _) hnamed'
  have hsame : ordered = ordered' := by
    refine ((hordered.trans hperm).trans hordered'.symm).eq_of_pairwise ?_ hsorted hsorted'
    intro entry other hentry hother hle hge
    have hmem : other ∈ document.entries := hperm.symm.subset (hordered'.subset hother)
    exact haccept.eq_of_key hnamed (hordered.subset hentry) hmem (CanvasKey.le_antisymm hle hge)
  subst hsame
  obtain ⟨forest, hforest⟩ := forest_of_ofJson hload (List.mergeSort_perm ws.top _)
  obtain ⟨forest', hforest'⟩ := forest_of_ofJson hload' (List.mergeSort_perm ws'.top _)
  have hspelled : ws.Spelled g ↔ ws'.Spelled g := by
    rw [hws, hws']
    exact spelled_layout_perm (hperm.flatMap_right _)
  rw [Generator.generate, Generator.generate, Setting.program_eq_spent hforest,
    Setting.program_eq_spent hforest']
  exact (agree_programOf hspelled (alike_stacks hread hread' hforest.at_eq hforest'.at_eq)).map _

end Workspace

/-- **Order of the canvas.** Two documents with the same nodes on their canvas, each of which gives an
id, load both or neither; and both have the same code or none. -/
theorem Workspace.generate_of_perm {value value' : Json} {nodes nodes' : List Json}
    (hnodes : topNodes? value = some nodes) (hnodes' : topNodes? value' = some nodes')
    (hperm : nodes.Perm nodes')
    (hids : ∀ node ∈ nodes, ((node.member? "id").bind Json.string?).isSome = true) :
    ((∃ ws, ofJson value = .ok ws) ↔ ∃ ws, ofJson value' = .ok ws) ∧
      ∀ (g : Generator) (code : String),
        (∃ ws, ofJson value = .ok ws ∧ g.generate ws = .ok code) ↔
          ∃ ws, ofJson value' = .ok ws ∧ g.generate ws = .ok code := by
  have hdocument := Document.ofJson?_eq value
  have hdocument' := Document.ofJson?_eq value'
  rw [hnodes, Option.map_some] at hdocument
  rw [hnodes', Option.map_some] at hdocument'
  have hentries := hperm.map fun node => (⟨Chain.ofJson node, Position.ofJson node⟩ : Entry)
  have hnamed : Named (nodes.map fun node => ⟨Chain.ofJson node, Position.ofJson node⟩) := by
    intro entry hentry
    obtain ⟨node, hnode, rfl⟩ := List.mem_map.1 hentry
    rw [Chain.label_ofJson]
    exact hids node hnode
  have hloads : (∃ ws, ofJson value = .ok ws) ↔ ∃ ws, ofJson value' = .ok ws := by
    rw [ofJson, ofJson, hdocument, hdocument']
    dsimp only
    rw [Document.load_ok_iff, Document.load_ok_iff]
    exact ⟨fun h => h.perm (hentries.flatMap_right _), fun h => h.perm (hentries.flatMap_right _).symm⟩
  refine ⟨hloads, fun g code => ⟨?_, ?_⟩⟩
  · rintro ⟨ws, hload, hcode⟩
    obtain ⟨ws', hload'⟩ := hloads.1 ⟨ws, hload⟩
    have hagree := agree_of_perm hdocument hdocument' hload hload' hentries hnamed g
    exact ⟨ws', hload', hagree.ok_iff.1 hcode⟩
  · rintro ⟨ws', hload', hcode⟩
    obtain ⟨ws, hload⟩ := hloads.2 ⟨ws', hload'⟩
    have hagree := agree_of_perm hdocument hdocument' hload hload' hentries hnamed g
    exact ⟨ws, hload, hagree.ok_iff.2 hcode⟩

/-- A saved canvas with the given nodes. -/
def documentOf (nodes : List Json) : Json :=
  .object [("blocks", .object [("blocks", .array nodes)])]

/-- Two nodes on one spot; in the second is a node without an id. -/
def spotNodes : List Json :=
  [.object [
    ("fields", .object [("NUM", .string "2")]),
    ("id", .string "later"),
    ("type", .string "number_literal")],
  .object [
    ("id", .string "earlier"),
    ("inputs", .object [("VALUE", .object [("block", .object [
      ("fields", .object [("NUM", .string "1")]),
      ("type", .string "number_literal")])])]),
    ("type", .string "return_statement")]]

/-- The workspace that they are loaded as. -/
def spotWorkspace : Workspace where
  blocks :=
    #[{ id := "later", kind := .numberLiteral, fields := [("NUM", "2")],
        position := some ⟨.zero, .zero⟩ },
      { id := "earlier", kind := .returnStatement, inputs := [("VALUE", ⟨2⟩)],
        position := some ⟨.zero, .zero⟩ },
      { id := "b2", kind := .numberLiteral, fields := [("NUM", "1")] }]
  top := [⟨0⟩, ⟨1⟩]

/-- The workspace that they are loaded as in the other order. -/
def turnedWorkspace : Workspace where
  blocks :=
    #[{ id := "earlier", kind := .returnStatement, inputs := [("VALUE", ⟨1⟩)],
        position := some ⟨.zero, .zero⟩ },
      { id := "b1", kind := .numberLiteral, fields := [("NUM", "1")] },
      { id := "later", kind := .numberLiteral, fields := [("NUM", "2")],
        position := some ⟨.zero, .zero⟩ }]
  top := [⟨0⟩, ⟨2⟩]

theorem spotNodes_loaded : Workspace.ofJson (documentOf spotNodes) = .ok spotWorkspace ∧
    Workspace.ofJson (documentOf spotNodes.reverse) = .ok turnedWorkspace :=
  ⟨by cbv, by cbv⟩

theorem spotWorkspace_topBlocks : spotWorkspace.topBlocks = [⟨1⟩, ⟨0⟩] := by
  have hkeys : (spotWorkspace.canvasKey ⟨0⟩).le (spotWorkspace.canvasKey ⟨1⟩) = false := by decide
  rw [Workspace.topBlocks, show spotWorkspace.top = [⟨0⟩, ⟨1⟩] from rfl, List.mergeSort]
  simp [List.MergeSort.Internal.splitInTwo, hkeys]

theorem spotWorkspace_code : Generator.generate {} spotWorkspace = .ok "res 1;\n\n2;" := by
  rw [Generator.generate, Setting.program_eq, spotWorkspace_topBlocks]
  cbv

/-- In the other order the nodes load as another workspace, which has the same code. -/
theorem turnedWorkspace_code :
    topNodes? (documentOf spotNodes) = some spotNodes ∧
      topNodes? (documentOf spotNodes.reverse) = some spotNodes.reverse ∧
      (∀ node ∈ spotNodes, ((node.member? "id").bind Json.string?).isSome = true) ∧
      Generator.generate {} turnedWorkspace = .ok "res 1;\n\n2;" := by
  have hids : ∀ node ∈ spotNodes, ((node.member? "id").bind Json.string?).isSome = true := by
    decide
  obtain ⟨hloaded, hturned⟩ := spotNodes_loaded
  have hnodes (nodes : List Json) : topNodes? (documentOf nodes) = some nodes := rfl
  have hsame := Workspace.generate_of_perm (hnodes spotNodes) (hnodes spotNodes.reverse)
    (List.reverse_perm spotNodes).symm hids
  obtain ⟨ws, hws, hcode⟩ := (hsame.2 {} _).1 ⟨spotWorkspace, hloaded, spotWorkspace_code⟩
  obtain rfl : turnedWorkspace = ws := Except.ok.inj (hturned.symm.trans hws)
  exact ⟨hnodes _, hnodes _, hids, hcode⟩

end BlockProgram
