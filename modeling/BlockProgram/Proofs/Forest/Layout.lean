import BlockProgram.Proofs.Forest.Load

/-!
What a document is loaded as, in closed form. Blocks are numbered in the order of their nodes: a node
comes first, then its inputs, each with its whole chain, and after them the next node of its own chain.

    number    n        n + 1  …           n + node.size
    blocks    node     its inputs         the rest of the chain

So the numbers of all blocks, and with them all links, are known from the sizes of the parts of the
document, and a load that does not fail ends in `Document.layout` (`Document.load_layout`).
-/

namespace BlockProgram

/-! ### Sizes and labels -/

mutual

/-- How many blocks a node becomes, with all that is plugged into it. -/
def Node.size : Node → Nat
  | .mk _ inputs => inputs.size + 1

def Chain.size : Chain → Nat
  | .last node => node.size
  | .link node rest => node.size + rest.size

def Inputs.size : Inputs → Nat
  | .nil => 0
  | .cons _ chain rest => chain.size + rest.size

end

mutual

/-- What the nodes say about their blocks, in the order of the load. -/
def Node.labels : Node → List NodeLabel
  | .mk label inputs => label :: inputs.labels

def Chain.labels : Chain → List NodeLabel
  | .last node => node.labels
  | .link node rest => node.labels ++ rest.labels

def Inputs.labels : Inputs → List NodeLabel
  | .nil => []
  | .cons _ chain rest => chain.labels ++ rest.labels

end

def Document.labels (document : Document) : List NodeLabel :=
  document.entries.flatMap fun entry => entry.chain.labels

/-- The ids that the document gives. -/
def givenIds (labels : List NodeLabel) : List String :=
  labels.filterMap NodeLabel.id?

theorem givenIds_append (labels more : List NodeLabel) :
    givenIds (labels ++ more) = givenIds labels ++ givenIds more :=
  List.filterMap_append ..

/-! ### Blocks -/

/-- The block of a node, by its number: it has no links yet. -/
def NodeLabel.block (n : Nat) (label : NodeLabel) : Block where
  id := label.id?.getD ("b" ++ toString n)
  kind := .ofTypeName (label.type?.getD "")
  fields := Table.ofList label.fields

/-- The first blocks of what is plugged into inputs, if the blocks are numbered from `n` on. -/
def Inputs.links (n : Nat) : Inputs → List (String × BlockId)
  | .nil => []
  | .cons name chain rest => (name, ⟨n⟩) :: rest.links (n + chain.size)

mutual

/-- The blocks of a node and of what is plugged into it, numbered from `n` on. -/
def Node.blocks (n : Nat) (next : Option BlockId) : Node → List Block
  | .mk label inputs =>
    { label.block n with inputs := Table.ofList (inputs.links (n + 1)), next } :: inputs.blocks (n + 1)

def Chain.blocks (n : Nat) : Chain → List Block
  | .last node => node.blocks n none
  | .link node rest => node.blocks n (some ⟨n + node.size⟩) ++ rest.blocks (n + node.size)

def Inputs.blocks (n : Nat) : Inputs → List Block
  | .nil => []
  | .cons _ chain rest => chain.blocks n ++ rest.blocks (n + chain.size)

end

/-- The blocks of a chain on the canvas. -/
def Entry.blocks (n : Nat) (entry : Entry) : List Block :=
  (entry.chain.blocks n).modifyHead fun block => { block with position := some entry.position }

/-- A workspace with more chains on its canvas. -/
def Workspace.layOut (ws : Workspace) : List Entry → Workspace
  | [] => ws
  | entry :: rest =>
    layOut ⟨ws.blocks ++ (entry.blocks ws.size).toArray, ws.top ++ [⟨ws.size⟩]⟩ rest

/-- The workspace of a document. -/
def Document.layout (document : Document) : Workspace :=
  Workspace.empty.layOut document.entries

/-! ### Sizes agree -/

mutual

theorem Node.length_labels (node : Node) : node.labels.length = node.size := by
  match node with
  | .mk label inputs => rw [Node.labels, Node.size, List.length_cons, Inputs.length_labels inputs]

theorem Chain.length_labels (chain : Chain) : chain.labels.length = chain.size := by
  match chain with
  | .last node => rw [Chain.labels, Chain.size, Node.length_labels node]
  | .link node rest =>
    rw [Chain.labels, Chain.size, List.length_append, Node.length_labels node, Chain.length_labels rest]

theorem Inputs.length_labels (inputs : Inputs) : inputs.labels.length = inputs.size := by
  match inputs with
  | .nil => rw [Inputs.labels, Inputs.size, List.length_nil]
  | .cons name chain rest =>
    rw [Inputs.labels, Inputs.size, List.length_append, Chain.length_labels chain,
      Inputs.length_labels rest]

end

mutual

@[simp]
theorem Node.length_blocks (node : Node) (n : Nat) (next : Option BlockId) :
    (node.blocks n next).length = node.size := by
  match node with
  | .mk label inputs => rw [Node.blocks, Node.size, List.length_cons, Inputs.length_blocks inputs]

@[simp]
theorem Chain.length_blocks (chain : Chain) (n : Nat) : (chain.blocks n).length = chain.size := by
  match chain with
  | .last node => rw [Chain.blocks, Chain.size, Node.length_blocks node]
  | .link node rest =>
    rw [Chain.blocks, Chain.size, List.length_append, Node.length_blocks node,
      Chain.length_blocks rest]

@[simp]
theorem Inputs.length_blocks (inputs : Inputs) (n : Nat) :
    (inputs.blocks n).length = inputs.size := by
  match inputs with
  | .nil => rw [Inputs.blocks, Inputs.size, List.length_nil]
  | .cons name chain rest =>
    rw [Inputs.blocks, Inputs.size, List.length_append, Chain.length_blocks chain,
      Inputs.length_blocks rest]

end

/-- A chain starts with the block of its first node. -/
theorem Chain.exists_blocks_cons (chain : Chain) (n : Nat) :
    ∃ block rest, chain.blocks n = block :: rest := by
  cases chain with
  | last node =>
    cases node
    exact ⟨_, _, by rw [Chain.blocks, Node.blocks]⟩
  | link node rest =>
    cases node
    exact ⟨_, _, by rw [Chain.blocks, Node.blocks, List.cons_append]⟩

@[simp]
theorem Entry.length_blocks (entry : Entry) (n : Nat) :
    (entry.blocks n).length = entry.chain.size := by
  rw [Entry.blocks, List.length_modifyHead, Chain.length_blocks]

/-! ### Readings of the blocks -/

/-- What is read off a block tells nothing about its links and its position. -/
def Block.Unlinked {α : Type} (read : Block → α) : Prop :=
  ∀ block inputs next position, read { block with inputs, next, position } = read block

section

variable {α : Type} {read : Block → α}

mutual

/-- Such readings of the blocks of a node are known from its labels and their numbers. -/
theorem Node.map_blocks (hread : Block.Unlinked read) (node : Node) (n : Nat) (next : Option BlockId) :
    (node.blocks n next).map read =
      (node.labels.zipIdx n).map fun numbered => read (numbered.1.block numbered.2) := by
  match node with
  | .mk label inputs =>
    rw [Node.blocks, Node.labels, List.map_cons, List.zipIdx_cons, List.map_cons,
      Inputs.map_blocks hread inputs]
    exact congrArg (· :: _) (hread ..)

theorem Chain.map_blocks (hread : Block.Unlinked read) (chain : Chain) (n : Nat) :
    (chain.blocks n).map read =
      (chain.labels.zipIdx n).map fun numbered => read (numbered.1.block numbered.2) := by
  match chain with
  | .last node => rw [Chain.blocks, Chain.labels, Node.map_blocks hread node]
  | .link node rest =>
    rw [Chain.blocks, Chain.labels, List.map_append, Node.map_blocks hread node,
      Chain.map_blocks hread rest, List.zipIdx_append, List.map_append, Node.length_labels]

theorem Inputs.map_blocks (hread : Block.Unlinked read) (inputs : Inputs) (n : Nat) :
    (inputs.blocks n).map read =
      (inputs.labels.zipIdx n).map fun numbered => read (numbered.1.block numbered.2) := by
  match inputs with
  | .nil => rw [Inputs.blocks, Inputs.labels, List.map_nil, List.zipIdx_nil, List.map_nil]
  | .cons name chain rest =>
    rw [Inputs.blocks, Inputs.labels, List.map_append, Chain.map_blocks hread chain,
      Inputs.map_blocks hread rest, List.zipIdx_append, List.map_append, Chain.length_labels]

end

theorem Entry.map_blocks (hread : Block.Unlinked read) (entry : Entry) (n : Nat) :
    (entry.blocks n).map read =
      (entry.chain.labels.zipIdx n).map fun numbered => read (numbered.1.block numbered.2) := by
  obtain ⟨block, rest, hblocks⟩ := entry.chain.exists_blocks_cons n
  rw [← Chain.map_blocks hread, Entry.blocks, hblocks, List.modifyHead_cons, List.map_cons, List.map_cons]
  exact congrArg (· :: _) (hread ..)

theorem Workspace.map_blocks_layOut (hread : Block.Unlinked read) (ws : Workspace)
    (entries : List Entry) : (ws.layOut entries).blocks.toList.map read =
      ws.blocks.toList.map read ++ ((entries.flatMap fun entry => entry.chain.labels).zipIdx ws.size).map
        fun numbered => read (numbered.1.block numbered.2) := by
  induction entries generalizing ws with
  | nil => rw [layOut, List.flatMap_nil, List.zipIdx_nil, List.map_nil, List.append_nil]
  | cons entry rest ih =>
    have hsize : (⟨ws.blocks ++ (entry.blocks ws.size).toArray, ws.top ++ [⟨ws.size⟩]⟩ : Workspace).size =
        ws.size + entry.chain.labels.length := by
      simp [size, Chain.length_labels]
    rw [layOut, ih, hsize, Array.toList_append, List.map_append, Entry.map_blocks hread,
      List.flatMap_cons, List.zipIdx_append, List.map_append, List.append_assoc]

end

/-! ### Appended blocks -/

namespace Workspace

variable {ws : Workspace} {blocks more : List Block} {block : Block}

/-- The workspace with more blocks after those that it has. -/
def extend (ws : Workspace) (blocks : List Block) : Workspace :=
  { ws with blocks := ws.blocks ++ blocks.toArray }

@[simp]
theorem extend_nil (ws : Workspace) : ws.extend [] = ws := by
  simp [extend]

@[simp]
theorem extend_extend (ws : Workspace) (blocks more : List Block) :
    (ws.extend blocks).extend more = ws.extend (blocks ++ more) := by
  simp [extend, Array.append_assoc]

@[simp]
theorem size_extend (ws : Workspace) (blocks : List Block) :
    (ws.extend blocks).size = ws.size + blocks.length := by
  simp [extend, size]

theorem addBlock_eq (ws : Workspace) (kind : BlockKind) :
    ws.addBlock kind = (⟨ws.size⟩, ws.extend [{ id := "b" ++ toString ws.size, kind }]) := by
  simp [addBlock, extend]

/-- Changing the first of the appended blocks. -/
theorem modify_extend (ws : Workspace) (block : Block) (blocks : List Block) (change : Block → Block) :
    (ws.extend (block :: blocks)).modify ⟨ws.size⟩ change = ws.extend (change block :: blocks) := by
  have hblocks : (ws.blocks ++ (block :: blocks).toArray).modify ws.blocks.size change =
      ws.blocks ++ (change block :: blocks).toArray := by
    refine Array.ext_getElem? fun place => ?_
    rw [Array.getElem?_modify, Array.getElem?_append, Array.getElem?_append]
    by_cases hlt : place < ws.blocks.size
    · rw [if_neg (by omega), if_pos hlt, if_pos hlt]
    · rw [if_neg hlt, if_neg hlt]
      obtain ⟨offset, rfl⟩ := Nat.exists_eq_add_of_le (Nat.le_of_not_lt hlt)
      cases offset <;> simp
  exact congrArg (Workspace.mk · ws.top) hblocks

theorem setFields_extend (ws : Workspace) (block : Block) (blocks : List Block)
    (fields : List (String × String)) :
    fields.foldl (fun ws' entry => ws'.setField ⟨ws.size⟩ entry.1 entry.2) (ws.extend (block :: blocks)) =
      ws.extend ({ block with
        fields := fields.foldl (fun table entry => Table.insert entry.1 entry.2 table) block.fields }
        :: blocks) := by
  induction fields generalizing block with
  | nil => rfl
  | cons entry rest ih =>
    rw [List.foldl_cons, List.foldl_cons, setField, modify_extend]
    exact ih _

end Workspace

/-! ### The load -/

/-- What is asked of the nodes of a document: each has a type, and no id is given twice. -/
structure Acceptable (labels : List NodeLabel) : Prop where
  typed : ∀ label ∈ labels, label.type?.isSome = true
  nodup : (givenIds labels).Nodup

/-- A load that has come through nodes: all of them had a type, and their ids were new. -/
structure Loading.Accepts (loading after : Loading) (labels : List NodeLabel) : Prop where
  typed : ∀ label ∈ labels, label.type?.isSome = true
  seen_eq : after.seen = (givenIds labels).reverse ++ loading.seen
  nodup : loading.seen.Nodup → after.seen.Nodup

theorem Loading.Accepts.refl (loading : Loading) : loading.Accepts loading [] :=
  ⟨(fun _ h => by cases h), rfl, id⟩

theorem Loading.Accepts.append {loading mid after : Loading} {labels more : List NodeLabel}
    (h : loading.Accepts mid labels) (h' : mid.Accepts after more) :
    loading.Accepts after (labels ++ more) := by
  refine ⟨fun label hlabel => ?_, ?_, fun hnodup => h'.nodup (h.nodup hnodup)⟩
  · rcases List.mem_append.1 hlabel with hlabel | hlabel
    · exact h.typed label hlabel
    · exact h'.typed label hlabel
  · rw [h'.seen_eq, h.seen_eq, givenIds_append, List.reverse_append, List.append_assoc]

/-- Only the ids that were given so far matter. -/
theorem Loading.Accepts.congr {loading after after' : Loading} {labels : List NodeLabel}
    (h : loading.Accepts after labels) (hseen : after'.seen = after.seen) :
    loading.Accepts after' labels :=
  ⟨h.typed, hseen.trans h.seen_eq, fun hnodup => by rw [hseen]; exact h.nodup hnodup⟩

namespace Loader

variable {loading after : Loading} {ws : Workspace} {block : Block} {blocks : List Block} {id : BlockId}

theorem identify_extend {given? : Option String} (hws : loading.workspace = ws.extend (block :: blocks))
    (h : identify ⟨ws.size⟩ given? loading = .ok ((), after)) :
    after.workspace = ws.extend ({ block with id := given?.getD block.id } :: blocks) ∧
      after.seen = given?.toList ++ loading.seen ∧ (loading.seen.Nodup → after.seen.Nodup) := by
  cases given? with
  | none =>
    cases h
    exact ⟨hws, rfl, id⟩
  | some given =>
    obtain ⟨hnew, hafter, hseen⟩ := identify_some_ok h
    refine ⟨?_, hseen, fun hnodup => ?_⟩
    · rw [hafter, hws, Workspace.modify_extend]
      rfl
    · rw [hseen]
      exact List.nodup_cons.2 ⟨hnew, hnodup⟩

/-- The block of a node is appended under the number that is free. -/
theorem block_layout {label : NodeLabel} {typeName : String}
    (h : Loader.block label loading = .ok ((id, typeName), after)) :
    id = ⟨loading.workspace.size⟩ ∧
      after.workspace = loading.workspace.extend [label.block loading.workspace.size] ∧
      loading.Accepts after [label] := by
  obtain ⟨htype, rfl, named, hidentify, hfields, hsame⟩ := steps_of_block h
  obtain ⟨hws, hseen, hnodup⟩ := identify_extend (congrArg Prod.snd (Workspace.addBlock_eq ..)) hidentify
  refine ⟨rfl, ?_, fun other hother => ?_, ?_, ?_⟩
  · rw [hfields, hws, Workspace.setFields_extend, NodeLabel.block, htype]
    rfl
  · rw [List.mem_singleton.1 hother, htype]
    rfl
  · rw [hsame, hseen, givenIds]
    cases hgiven : label.id? <;> simp [hgiven]
  · rw [hsame]
    exact hnodup

end Loader

mutual

/-- A node is loaded as its blocks. -/
theorem Node.load_layout {node : Node} {loading after : Loading} {id : BlockId}
    (h : node.load loading = .ok (id, after)) :
    id = ⟨loading.workspace.size⟩ ∧
      after.workspace = loading.workspace.extend (node.blocks loading.workspace.size none) ∧
      loading.Accepts after node.labels := by
  match node with
  | .mk label inputs =>
    obtain ⟨typeName, mid, hblock, hinputs⟩ := Node.steps_of_load h
    obtain ⟨hid, hfirst, haccepts⟩ := Loader.block_layout hblock
    subst hid
    obtain ⟨hws, hmore⟩ := Inputs.load_layout hinputs hfirst
    refine ⟨rfl, ?_, haccepts.append hmore⟩
    rw [hws, hfirst, Workspace.size_extend, Node.blocks]
    rfl

/-- A chain is loaded as its blocks. -/
theorem Chain.load_layout {chain : Chain} {loading after : Loading} {id : BlockId}
    (h : chain.load loading = .ok (id, after)) :
    id = ⟨loading.workspace.size⟩ ∧
      after.workspace = loading.workspace.extend (chain.blocks loading.workspace.size) ∧
      loading.Accepts after chain.labels := by
  match chain with
  | .last node =>
    rw [Chain.load] at h
    rw [Chain.labels, Chain.blocks]
    exact Node.load_layout h
  | .link node rest =>
    obtain ⟨mid, next, last, hnode, hrest, hlink, hsame⟩ := Chain.steps_of_load h
    obtain ⟨hfirst, hmid, haccepts⟩ := Node.load_layout hnode
    obtain ⟨hnext, hlast, hmore⟩ := Chain.load_layout hrest
    rw [hmid, Workspace.size_extend, Node.length_blocks] at hnext hlast
    subst hfirst hnext
    refine ⟨rfl, ?_, (haccepts.append hmore).congr hsame⟩
    obtain ⟨label, inputs⟩ := node
    rw [hlink, hlast, Workspace.extend_extend, Workspace.connectNext, Chain.blocks, Node.blocks, Node.blocks,
      List.cons_append, List.cons_append, Workspace.modify_extend]

/-- The inputs of a block are loaded as their blocks, and the block is linked to the first of each. -/
theorem Inputs.load_layout {inputs : Inputs} {ws : Workspace} {typeName : String}
    {loading after : Loading} (h : inputs.load ⟨ws.size⟩ typeName loading = .ok ((), after))
    {block : Block} {blocks : List Block} (hws : loading.workspace = ws.extend (block :: blocks)) :
    after.workspace = ws.extend ({ block with
        inputs := (inputs.links loading.workspace.size).foldl
          (fun table entry => Table.insert entry.1 entry.2 table) block.inputs } ::
        (blocks ++ inputs.blocks loading.workspace.size)) ∧
      loading.Accepts after inputs.labels := by
  match inputs with
  | .nil =>
    rw [Inputs.load] at h
    cases h
    rw [Inputs.links, Inputs.blocks, Inputs.labels, List.append_nil]
    exact ⟨hws, .refl _⟩
  | .cons name chain rest =>
    obtain ⟨child, mid, hchain, h⟩ := Inputs.steps_of_load h
    obtain ⟨hchild, hmid, haccepts⟩ := Chain.load_layout hchain
    subst hchild
    have hplugged : mid.workspace.connectInput ⟨ws.size⟩ name ⟨loading.workspace.size⟩ =
        ws.extend ({ block with inputs := Table.insert name ⟨loading.workspace.size⟩ block.inputs } ::
          (blocks ++ chain.blocks loading.workspace.size)) := by
      rw [hmid, hws, Workspace.extend_extend, List.cons_append, Workspace.connectInput,
        Workspace.modify_extend]
    have hsize : (mid.workspace.connectInput ⟨ws.size⟩ name ⟨loading.workspace.size⟩).size =
        loading.workspace.size + chain.size := by
      rw [Workspace.connectInput, Workspace.size_modify, hmid, Workspace.size_extend,
        Chain.length_blocks]
    obtain ⟨hrest, hmore⟩ := Inputs.load_layout h hplugged
    dsimp only at hrest
    rw [hsize] at hrest
    refine ⟨?_, ?_⟩
    · rw [hrest, Inputs.links, Inputs.blocks, List.foldl_cons, List.append_assoc]
    · have hfirst : loading.Accepts { mid with
          workspace := mid.workspace.connectInput ⟨ws.size⟩ name ⟨loading.workspace.size⟩ }
          chain.labels := haccepts.congr rfl
      rw [Inputs.labels]
      exact hfirst.append hmore

end

/-- An entry is loaded as its blocks, the first of which is put on the canvas. -/
theorem Entry.load_layout {entry : Entry} {loading after : Loading}
    (h : entry.load loading = .ok ((), after)) :
    after.workspace = loading.workspace.layOut [entry] ∧
      loading.Accepts after entry.chain.labels := by
  obtain ⟨id, mid, hchain, hplace, hsame⟩ := Entry.steps_of_load h
  obtain ⟨hid, hws, haccepts⟩ := Chain.load_layout hchain
  subst hid
  refine ⟨?_, haccepts.congr hsame⟩
  rw [hplace, hws, Workspace.place, Workspace.layOut, Workspace.layOut, Entry.blocks]
  obtain ⟨block, rest, hblocks⟩ := entry.chain.exists_blocks_cons loading.workspace.size
  rw [hblocks, Workspace.modify_extend]
  rfl

theorem entries_load_layout {entries : List Entry} {loading after : Loading}
    (h : entries.forM Entry.load loading = .ok ((), after)) :
    after.workspace = loading.workspace.layOut entries ∧
      loading.Accepts after (entries.flatMap fun entry => entry.chain.labels) := by
  induction entries generalizing loading with
  | nil =>
    cases h
    exact ⟨rfl, .refl _⟩
  | cons entry rest ih =>
    obtain ⟨⟨⟩, mid, hentry, h⟩ := Loader.bind_ok h
    obtain ⟨hws, haccepts⟩ := Entry.load_layout hentry
    obtain ⟨hrest, hmore⟩ := ih h
    refine ⟨?_, haccepts.append hmore⟩
    rw [hrest, hws]
    rfl

/-- A document that is loaded is loaded as its layout. -/
theorem Document.load_layout {document : Document} {ws : Workspace} (h : document.load = .ok ws) :
    ws = document.layout ∧ Acceptable document.labels := by
  obtain ⟨after, hrun, rfl⟩ := Document.steps_of_load h
  obtain ⟨hws, haccepts⟩ := entries_load_layout hrun
  refine ⟨hws, haccepts.typed, ?_⟩
  have hnodup := haccepts.nodup List.nodup_nil
  rwa [haccepts.seen_eq, List.append_nil, List.nodup_reverse] at hnodup

/-- A JSON value that is loaded is loaded as the layout of its document. -/
theorem Workspace.ofJson_layout {value : Json} {ws : Workspace} (h : Workspace.ofJson value = .ok ws) :
    ∃ document, Document.ofJson? value = some document ∧ ws = document.layout ∧
      Acceptable document.labels := by
  obtain ⟨document, hdocument, hload⟩ := document_of_ofJson h
  exact ⟨document, hdocument, Document.load_layout hload⟩

end BlockProgram
