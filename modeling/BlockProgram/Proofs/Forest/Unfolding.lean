import BlockProgram.Proofs.Forest.Layout
import BlockProgram.Proofs.Json.Ordered

/-!
A loaded workspace unfolds to the nodes of its document. Following the links of the blocks on the canvas
comes to one block for each node, with the kind, the id and the fields that the node asks for; what is
plugged into the inputs of the block are the nodes in the inputs of its node, and after it comes the node
after its node. The relations below say so, and which numbers the blocks have: `HoldsChain position? n
node m` is about the chain that starts at `node` and has the numbers from `n` to `m`.

    n        n + 1 …                     m
    node     what is in its inputs       the next node

They are about the JSON value itself, whose objects have their members in the order of their names.
-/

namespace BlockProgram

/-! ### Nodes and their blocks -/

/-- The nodes on the canvas; none if there is no member `blocks`. -/
def topNodes? (value : Json) : Option (List Json) :=
  match value.member? "blocks" with
  | none => some []
  | some blocks => (blocks.member? "blocks").bind Json.array?

/-- What a node says about its block is so; a block with the number `n` has an id of its own if the node
gives none. -/
structure Block.Describes (block : Block) (n : Nat) (node : Json) : Prop where
  kind : ∃ type, (node.member? "type").bind Json.string? = some type ∧ block.kind = .ofTypeName type
  id : block.id = ((node.member? "id").bind Json.string?).getD ("b" ++ toString n)
  field : ∀ name, block.field? name = ((node.member? "fields").bind (·.member? name)).bind fieldText?

namespace Workspace

mutual

/-- Block `n` is the block of a node, with the given position and next block, and the blocks up to `m` are
those in the inputs of the node. -/
inductive HoldsNode (ws : Workspace) : Option Position → Option BlockId → Nat → Json → Nat → Prop where
  | mk {position? next? n node m block} (hget : ws.get? ⟨n⟩ = some block)
    (hnode : block.Describes n node) (hposition : block.position = position?)
    (hnext : block.next = next?) (hnames : Table.Increasing block.inputs)
    (hinputs : HoldsInputs ws (n + 1) (inputMembers node) block.inputs m) :
    HoldsNode ws position? next? n node m

/-- The blocks from `n` to `m` are those of a node and of the nodes after it. Only the first of them may
have a position. -/
inductive HoldsChain (ws : Workspace) : Option Position → Nat → Json → Nat → Prop where
  | last {position? n node m} (hnode : HoldsNode ws position? none n node m)
    (hend : nextNode? node = none) : HoldsChain ws position? n node m
  | link {position? n node next m k} (hnode : HoldsNode ws position? (some ⟨m⟩) n node m)
    (hnext : nextNode? node = some next) (hrest : HoldsChain ws none m next k) :
    HoldsChain ws position? n node k

/-- The table leads to the blocks of the nodes in some inputs, each under the name of its input; inputs
without a node are not in it. -/
inductive HoldsInputs (ws : Workspace) : Nat → List (String × Json) → Table BlockId → Nat → Prop where
  | nil {n} : HoldsInputs ws n [] [] n
  | skip {n name input members inputs m} (hinput : inputNode? input = none)
    (hrest : HoldsInputs ws n members inputs m) :
    HoldsInputs ws n ((name, input) :: members) inputs m
  | plug {n name input node members inputs m k} (hinput : inputNode? input = some node)
    (hchain : HoldsChain ws none n node m) (hrest : HoldsInputs ws m members inputs k) :
    HoldsInputs ws n ((name, input) :: members) ((name, ⟨n⟩) :: inputs) k

end

/-- The list leads to the blocks of the nodes on the canvas, where they have positions. -/
inductive HoldsEntries (ws : Workspace) : Nat → List Json → List BlockId → Nat → Prop where
  | nil {n} : HoldsEntries ws n [] [] n
  | cons {n node nodes tops m k} (hchain : HoldsChain ws (some (Position.ofJson node)) n node m)
    (hrest : HoldsEntries ws m nodes tops k) : HoldsEntries ws n (node :: nodes) (⟨n⟩ :: tops) k

end Workspace

/-! ### Documents of ordered values -/

theorem Document.ofJson?_eq (value : Json) : Document.ofJson? value =
    (topNodes? value).map fun nodes =>
      ⟨nodes.map fun node => ⟨Chain.ofJson node, Position.ofJson node⟩⟩ := by
  rw [ofJson?, topNodes?]
  cases value.member? "blocks" <;> rfl

theorem Chain.ofJson_last {node : Json} (h : nextNode? node = none) :
    Chain.ofJson node = .last (.mk (.ofJson node) (.ofMembers (inputMembers node))) := by
  rw [ofJson]
  split
  · rfl
  · rename_i hnext
    rw [h] at hnext
    cases hnext

theorem Chain.ofJson_link {node next : Json} (h : nextNode? node = some next) :
    Chain.ofJson node =
      .link (.mk (.ofJson node) (.ofMembers (inputMembers node))) (Chain.ofJson next) := by
  rw [ofJson]
  split
  · rename_i hnext
    rw [h] at hnext
    cases hnext
  · rename_i hnext
    rw [h] at hnext
    cases hnext
    rfl

theorem Inputs.ofMembers_skip {input : Json} (h : inputNode? input = none) (name : String)
    (members : List (String × Json)) :
    Inputs.ofMembers ((name, input) :: members) = Inputs.ofMembers members := by
  rw [ofMembers]
  split
  · rfl
  · rename_i hnode
    rw [h] at hnode
    cases hnode

theorem Inputs.ofMembers_plug {input node : Json} (h : inputNode? input = some node) (name : String)
    (members : List (String × Json)) :
    Inputs.ofMembers ((name, input) :: members) =
      .cons name (Chain.ofJson node) (Inputs.ofMembers members) := by
  rw [ofMembers]
  split
  · rename_i hnode
    rw [h] at hnode
    cases hnode
  · rename_i hnode
    rw [h] at hnode
    cases hnode
    rfl

namespace Json.Ordered

variable {value node next : Json}

theorem topNodes? (h : value.Ordered) {nodes : List Json} (hnodes : topNodes? value = some nodes) :
    ∀ node ∈ nodes, node.Ordered := by
  rw [BlockProgram.topNodes?] at hnodes
  cases hblocks : value.member? "blocks" with
  | none =>
    rw [hblocks] at hnodes
    cases hnodes
    exact fun node hnode => by cases hnode
  | some blocks =>
    rw [hblocks] at hnodes
    obtain ⟨list, hlist, hitems⟩ := Option.bind_eq_some_iff.1 hnodes
    exact ((h.member? hblocks).member? hlist).array? hitems

theorem nextNode? (h : node.Ordered) (hnext : nextNode? node = some next) : next.Ordered := by
  obtain ⟨link, hlink, hnext⟩ := Option.bind_eq_some_iff.1 hnext
  exact (h.member? hlink).member? hnext

theorem inputNode? {input : Json} (h : input.Ordered) (hnode : inputNode? input = some node) :
    node.Ordered := by
  rcases Option.or_eq_some_iff.1 hnode with hnode | ⟨-, hnode⟩ <;> exact h.member? hnode

theorem inputMembers (h : node.Ordered) : Table.Increasing (inputMembers node) ∧
    ∀ entry ∈ BlockProgram.inputMembers node, entry.2.Ordered := by
  rw [BlockProgram.inputMembers]
  cases hinputs : node.member? "inputs" with
  | none => exact ⟨.nil, fun entry hentry => by cases hentry⟩
  | some inputs => exact (h.member? hinputs).members

end Json.Ordered

/-- A field of the block of a node has the text of the field of the node. -/
theorem find?_fieldsOf {node : Json} (h : node.Ordered) (name : String) :
    Table.find? name (Table.ofList (fieldsOf node)) =
      ((node.member? "fields").bind (·.member? name)).bind fieldText? := by
  rw [fieldsOf]
  cases hfields : node.member? "fields" with
  | none => rfl
  | some fields =>
    have hincreasing := (h.member? hfields).members.1
    have hkept := hincreasing.sublist (Table.names_filterMap_sublist fieldText? fields.members)
    rw [Option.elim_some, Table.ofList_eq_self hkept, Table.find?_filterMap _ hincreasing.nodup,
      Json.lookup_members]
    rfl

/-- The links of inputs have the names of inputs that hold a node. -/
theorem names_links_sublist (members : List (String × Json)) (n : Nat) :
    (((Inputs.ofMembers members).links n).map Prod.fst).Sublist (members.map Prod.fst) := by
  induction members generalizing n with
  | nil =>
    rw [Inputs.ofMembers]
    exact .slnil
  | cons entry rest ih =>
    obtain ⟨name, input⟩ := entry
    cases hinput : inputNode? input with
    | none =>
      rw [Inputs.ofMembers_skip hinput]
      exact (ih n).cons name
    | some node =>
      rw [Inputs.ofMembers_plug hinput, Inputs.links]
      exact (ih _).cons_cons name

/-! ### Blocks in their places -/

namespace Workspace

variable {ws : Workspace} {n : Nat} {block : Block} {blocks more : List Block}

/-- The blocks from number `n` on are those of a list. -/
def HasAt (ws : Workspace) (n : Nat) (blocks : List Block) : Prop :=
  ∀ k block, blocks[k]? = some block → ws.get? ⟨n + k⟩ = some block

theorem HasAt.head (h : ws.HasAt n (block :: blocks)) : ws.get? ⟨n⟩ = some block :=
  h 0 block rfl

theorem HasAt.tail (h : ws.HasAt n (block :: blocks)) : ws.HasAt (n + 1) blocks := by
  intro k other hother
  have hget := h (k + 1) other hother
  rwa [Nat.add_left_comm, Nat.add_comm k] at hget

theorem HasAt.left (h : ws.HasAt n (blocks ++ more)) : ws.HasAt n blocks := by
  intro k other hother
  obtain ⟨hk, -⟩ := List.getElem?_eq_some_iff.1 hother
  exact h k other (by rw [List.getElem?_append_left hk, hother])

theorem HasAt.right (h : ws.HasAt n (blocks ++ more)) : ws.HasAt (n + blocks.length) more := by
  intro k other hother
  rw [Nat.add_assoc]
  exact h _ other (by rw [List.getElem?_append_right (Nat.le_add_right ..), Nat.add_sub_cancel_left,
    hother])

/-- Blocks that are put on the end of a workspace stay in their places when more follow. -/
theorem hasAt_layOut (ws : Workspace) (entries : List Entry) :
    (ws.layOut entries).HasAt 0 ws.blocks.toList := by
  induction entries generalizing ws with
  | nil =>
    intro k block hblock
    rwa [Nat.zero_add, layOut, get?, ← Array.getElem?_toList]
  | cons entry rest ih =>
    have hrest := ih ⟨ws.blocks ++ (entry.blocks ws.size).toArray, ws.top ++ [⟨ws.size⟩]⟩
    rw [Array.toList_append] at hrest
    exact hrest.left

end Workspace

/-! ### The unfolding -/

/-- Each node has a type. -/
def Typed (labels : List NodeLabel) : Prop :=
  ∀ label ∈ labels, label.type?.isSome = true

/-- The block that is laid out for a node is as the node says. -/
theorem describes_block {node : Json} (h : node.Ordered)
    (htype : (NodeLabel.ofJson node).type?.isSome = true) (n : Nat) (inputs : Table BlockId)
    (next : Option BlockId) (position : Option Position) :
    Block.Describes { (NodeLabel.ofJson node).block n with inputs, next, position } n node := by
  obtain ⟨type, htype⟩ := Option.isSome_iff_exists.1 htype
  refine ⟨⟨type, htype, ?_⟩, rfl, find?_fieldsOf h⟩
  show BlockKind.ofTypeName ((NodeLabel.ofJson node).type?.getD "") = _
  rw [htype, Option.getD_some]

/-- The first block of a chain has no position unless it is given one. -/
theorem Chain.blocks_unplaced (chain : Chain) (n : Nat) :
    ((chain.blocks n).modifyHead fun block => { block with position := none }) = chain.blocks n := by
  cases chain with
  | last node =>
    cases node
    rw [Chain.blocks, Node.blocks]
    rfl
  | link node rest =>
    cases node
    rw [Chain.blocks, Node.blocks]
    rfl

section

variable {ws : Workspace}

/-- The block that is laid out for a node holds it, if the blocks of its inputs do. -/
theorem holdsNode_layout {position? : Option Position} {next? : Option BlockId} {n m : Nat}
    {node : Json} (h : node.Ordered) (htype : (NodeLabel.ofJson node).type?.isSome = true)
    (hget : ws.get? ⟨n⟩ = some { (NodeLabel.ofJson node).block n with
      inputs := Table.ofList ((Inputs.ofMembers (inputMembers node)).links (n + 1)), next := next?,
      position := position? })
    (hinputs : ws.HoldsInputs (n + 1) (inputMembers node)
      ((Inputs.ofMembers (inputMembers node)).links (n + 1)) m) :
    ws.HoldsNode position? next? n node m := by
  have hincreasing : Table.Increasing ((Inputs.ofMembers (inputMembers node)).links (n + 1)) :=
    h.inputMembers.1.sublist (names_links_sublist _ _)
  rw [Table.ofList_eq_self hincreasing] at hget
  exact ⟨hget, describes_block h htype n _ next? position?, rfl, rfl, hincreasing,
    hinputs⟩

mutual

/-- The blocks that are laid out for a chain hold its nodes. -/
theorem holdsChain_layout {position? : Option Position} {n : Nat} {node : Json} (h : node.Ordered)
    (htyped : Typed (Chain.ofJson node).labels)
    (hat : ws.HasAt n (((Chain.ofJson node).blocks n).modifyHead fun block =>
      { block with position := position? })) :
    ws.HoldsChain position? n node (n + (Chain.ofJson node).size) := by
  have hlt := sizeOf_inputMembers_le node
  cases hnext : nextNode? node with
  | none =>
    rw [Chain.ofJson_last hnext] at htyped hat ⊢
    rw [Chain.labels, Node.labels] at htyped
    rw [Chain.blocks, Node.blocks, List.modifyHead_cons] at hat
    have hinputs := holdsInputs_layout h.inputMembers.2
      (fun label hlabel => htyped label (List.mem_cons_of_mem _ hlabel)) hat.tail
    rw [Nat.add_assoc, Nat.add_comm 1] at hinputs
    rw [Chain.size, Node.size]
    exact .last (holdsNode_layout h (htyped _ (List.mem_cons_self ..)) hat.head hinputs) hnext
  | some next =>
    have hless := sizeOf_nextNode?_lt hnext
    rw [Chain.ofJson_link hnext] at htyped hat ⊢
    rw [Chain.labels, Node.labels] at htyped
    rw [Chain.blocks, Node.blocks, List.cons_append, List.modifyHead_cons] at hat
    have hinputs := holdsInputs_layout h.inputMembers.2
      (fun label hlabel => htyped label (by simp [hlabel])) hat.tail.left
    have hrest := hat.tail.right
    rw [Inputs.length_blocks, ← Chain.blocks_unplaced] at hrest
    rw [Nat.add_assoc, Nat.add_comm 1, ← Node.size] at hinputs hrest
    have hchain := holdsChain_layout (h.nextNode? hnext)
      (fun label hlabel => htyped label (by simp [hlabel])) hrest
    rw [Nat.add_assoc] at hchain
    rw [Chain.size]
    exact .link (holdsNode_layout h (htyped _ (List.mem_cons_self ..)) hat.head hinputs) hnext hchain
termination_by 2 * sizeOf node + 1

/-- The blocks that are laid out for inputs hold the nodes in them. -/
theorem holdsInputs_layout {n : Nat} {members : List (String × Json)}
    (h : ∀ entry ∈ members, entry.2.Ordered) (htyped : Typed (Inputs.ofMembers members).labels)
    (hat : ws.HasAt n ((Inputs.ofMembers members).blocks n)) :
    ws.HoldsInputs n members ((Inputs.ofMembers members).links n)
      (n + (Inputs.ofMembers members).size) := by
  match members with
  | [] =>
    rw [Inputs.ofMembers, Inputs.links, Inputs.size]
    exact .nil
  | (name, input) :: rest =>
    have hrest (entry : String × Json) (hentry : entry ∈ rest) :=
      h entry (List.mem_cons_of_mem _ hentry)
    cases hinput : inputNode? input with
    | none =>
      rw [Inputs.ofMembers_skip hinput] at htyped hat ⊢
      exact .skip hinput (holdsInputs_layout hrest htyped hat)
    | some node =>
      have hless := sizeOf_inputNode?_lt hinput
      have hnode := (h _ (List.mem_cons_self ..)).inputNode? hinput
      rw [Inputs.ofMembers_plug hinput] at htyped hat ⊢
      rw [Inputs.labels] at htyped
      rw [Inputs.blocks] at hat
      have hfirst := hat.left
      rw [← Chain.blocks_unplaced] at hfirst
      have hchain := holdsChain_layout hnode (fun label hlabel => htyped label (by simp [hlabel]))
        hfirst
      have hmore := hat.right
      rw [Chain.length_blocks] at hmore
      have hinputs := holdsInputs_layout hrest (fun label hlabel => htyped label (by simp [hlabel])) hmore
      rw [Nat.add_assoc] at hinputs
      rw [Inputs.links, Inputs.size]
      exact .plug hinput hchain hinputs
termination_by 2 * sizeOf members

end

/-- The blocks that are laid out for a document hold the nodes on its canvas. -/
theorem holdsEntries_layOut {ws' : Workspace} {nodes : List Json} (h : ∀ node ∈ nodes, node.Ordered)
    (htyped : ∀ node ∈ nodes, Typed (Chain.ofJson node).labels)
    (hws' : ws' = ws.layOut (nodes.map fun node => ⟨Chain.ofJson node, Position.ofJson node⟩)) :
    ∃ tops, ws'.top = ws.top ++ tops ∧ ws'.HoldsEntries ws.size nodes tops ws'.size := by
  induction nodes generalizing ws with
  | nil =>
    cases hws'
    exact ⟨[], by simp [Workspace.layOut], .nil⟩
  | cons node rest ih =>
    rw [List.map_cons, Workspace.layOut] at hws'
    obtain ⟨tops, htops, hrest⟩ := ih (fun other hother => h other (List.mem_cons_of_mem _ hother))
      (fun other hother => htyped other (List.mem_cons_of_mem _ hother)) hws'
    -- the blocks of the first entry are still where they were put
    have hat : ws'.HasAt ws.size (((Chain.ofJson node).blocks ws.size).modifyHead fun block =>
        { block with position := some (Position.ofJson node) }) := by
      have hplaced := Workspace.hasAt_layOut
        ⟨ws.blocks ++ (Entry.blocks ws.size ⟨Chain.ofJson node, Position.ofJson node⟩).toArray,
          ws.top ++ [⟨ws.size⟩]⟩ (rest.map fun node => ⟨Chain.ofJson node, Position.ofJson node⟩)
      rw [← hws', Array.toList_append] at hplaced
      have hentry := hplaced.right
      rwa [Nat.zero_add, Array.length_toList] at hentry
    have hsize : (Workspace.mk
        (ws.blocks ++ (Entry.blocks ws.size ⟨Chain.ofJson node, Position.ofJson node⟩).toArray)
        (ws.top ++ [⟨ws.size⟩])).size = ws.size + (Chain.ofJson node).size := by
      simp [Workspace.size]
    rw [hsize] at hrest
    refine ⟨⟨ws.size⟩ :: tops, by rw [htops]; simp, .cons ?_ hrest⟩
    exact holdsChain_layout (h _ (List.mem_cons_self ..)) (htyped _ (List.mem_cons_self ..)) hat

end

/-- A loaded workspace holds the nodes of its value. -/
theorem Workspace.holdsEntries_of_ofJson {value : Json} {ws : Workspace} (hvalue : value.Ordered)
    (h : Workspace.ofJson value = .ok ws) :
    ∃ nodes, topNodes? value = some nodes ∧ ws.HoldsEntries 0 nodes ws.top ws.size := by
  obtain ⟨document, hdocument, hws, haccept⟩ := Workspace.ofJson_layout h
  rw [Document.ofJson?_eq] at hdocument
  obtain ⟨nodes, hnodes, rfl⟩ := Option.map_eq_some_iff.1 hdocument
  have htyped (node : Json) (hnode : node ∈ nodes) : Typed (Chain.ofJson node).labels := by
    intro label hlabel
    refine haccept.typed label ?_
    rw [Document.labels, List.flatMap_map]
    exact List.mem_flatMap.2 ⟨node, hnode, hlabel⟩
  obtain ⟨tops, htops, hholds⟩ := holdsEntries_layOut (hvalue.topNodes? hnodes) htyped hws
  refine ⟨nodes, hnodes, ?_⟩
  rw [htops]
  exact hholds

/-- There are as many blocks as nodes. -/
theorem Workspace.size_layOut (ws : Workspace) (entries : List Entry) :
    (ws.layOut entries).size = ws.size + (entries.flatMap fun entry => entry.chain.labels).length := by
  induction entries generalizing ws with
  | nil => rfl
  | cons entry rest ih =>
    rw [layOut, ih, List.flatMap_cons, List.length_append, Chain.length_labels]
    simp [size, Nat.add_assoc]

/-- **Loading is faithful.** A loaded workspace has one block for each node of the document, numbered in
the order of the load, and from the blocks on the canvas its links lead through the nodes of the document
as the nodes themselves do. -/
theorem Workspace.ofJson_unfolds {value : Json} {ws : Workspace} (hvalue : value.Ordered)
    (h : Workspace.ofJson value = .ok ws) :
    ∃ nodes document, topNodes? value = some nodes ∧ Document.ofJson? value = some document ∧
      ws.size = document.labels.length ∧ ws.HoldsEntries 0 nodes ws.top ws.size := by
  obtain ⟨document, hdocument, hws, -⟩ := Workspace.ofJson_layout h
  obtain ⟨nodes, hnodes, hholds⟩ := Workspace.holdsEntries_of_ofJson hvalue h
  refine ⟨nodes, document, hnodes, hdocument, ?_, hholds⟩
  rw [hws, Document.layout, size_layOut]
  exact Nat.zero_add _

/-- Two chains on a canvas, one of them with a shadow in an input. -/
def twoChains : Json :=
  .object [("blocks", .object [("blocks", .array [
    .object [
      ("fields", .object [
        ("KEEP", .object [("id", .string "v")]),
        ("LIST", .array []),
        ("N", .number (.integer 7))]),
      ("id", .string "set"),
      ("inputs", .object [
        ("EMPTY", .object []),
        ("VALUE", .object [("shadow", .object [
          ("fields", .object [("NUM", .string "1")]),
          ("type", .string "number_literal")])])]),
      ("next", .object [("block", .object [("type", .string "return_statement")])]),
      ("type", .string "variable_declaration"),
      ("x", .number (.double ⟨0x4004000000000000⟩))],
    .object [
      ("fields", .object [("BOOL", .bool true)]),
      ("type", .string "boolean_literal")]])])]

/-- The workspace that they are loaded as. -/
def twoChainsWorkspace : Workspace where
  blocks :=
    #[{ id := "set", kind := .variableDeclaration, fields := [("KEEP", "v"), ("N", "7")],
        inputs := [("VALUE", ⟨1⟩)], next := some ⟨2⟩, position := some ⟨⟨0x4004000000000000⟩, .zero⟩ },
      { id := "b1", kind := .numberLiteral, fields := [("NUM", "1")] },
      { id := "b2", kind := .returnStatement },
      { id := "b3", kind := .booleanLiteral, fields := [("BOOL", "true")],
        position := some ⟨.zero, .zero⟩ }]
  top := [⟨0⟩, ⟨3⟩]

theorem twoChains_ordered : twoChains.Ordered := by
  simp +decide [twoChains]

theorem twoChains_loaded : Workspace.ofJson twoChains = .ok twoChainsWorkspace := by
  cbv

theorem twoChains_unfolds :
    twoChains.Ordered ∧ Workspace.ofJson twoChains = .ok twoChainsWorkspace ∧
      ∃ nodes document, topNodes? twoChains = some nodes ∧
        Document.ofJson? twoChains = some document ∧
        twoChainsWorkspace.size = document.labels.length ∧
        twoChainsWorkspace.HoldsEntries 0 nodes twoChainsWorkspace.top twoChainsWorkspace.size :=
  ⟨twoChains_ordered, twoChains_loaded, Workspace.ofJson_unfolds twoChains_ordered twoChains_loaded⟩

end BlockProgram
