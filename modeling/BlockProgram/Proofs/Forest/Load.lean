import BlockProgram.Proofs.Forest.Basic
import BlockProgram.Workspace.Canvas
import BlockProgram.Workspace.Load

/-!
A loaded workspace is a forest. Blocks are created one after the other, so a node that is loaded adds
blocks to those that are there already and changes none of them; what it adds is a stack, with each block
once. A step of a load changes at most the block it is about: its labels, one of its inputs or the block
after it.
-/

namespace BlockProgram

namespace Workspace

variable {ws ws' ws'' : Workspace} {id : BlockId} {block : Block} {change : Block → Block}

theorem get?_modify (ws : Workspace) (id other : BlockId) (change : Block → Block) :
    (ws.modify id change).get? other =
      if other = id then (ws.get? other).map change else ws.get? other := by
  obtain ⟨index⟩ := id
  obtain ⟨place⟩ := other
  simp only [get?, modify, Array.getElem?_modify, BlockId.mk.injEq, eq_comm]

@[simp]
theorem size_modify (ws : Workspace) (id : BlockId) (change : Block → Block) :
    (ws.modify id change).size = ws.size := by
  simp [size, modify]

/-- The blocks and the canvas of a workspace are still there, and only blocks that are new or `changed`
differ. -/
structure Keeps (ws ws' : Workspace) (changed : BlockId → Prop) : Prop where
  size_le : ws.size ≤ ws'.size
  top_eq : ws'.top = ws.top
  get?_eq : ∀ id, id.index < ws.size → ¬ changed id → ws'.get? id = ws.get? id

theorem Keeps.refl (ws : Workspace) (changed : BlockId → Prop) : ws.Keeps ws changed :=
  ⟨Nat.le_refl _, rfl, fun _ _ _ => rfl⟩

theorem Keeps.trans {changed : BlockId → Prop} (h : ws.Keeps ws' changed) (h' : ws'.Keeps ws'' changed) :
    ws.Keeps ws'' changed := by
  refine ⟨Nat.le_trans h.size_le h'.size_le, h'.top_eq.trans h.top_eq, ?_⟩
  intro id hid hchanged
  rw [h'.get?_eq id (Nat.lt_of_lt_of_le hid h.size_le) hchanged, h.get?_eq id hid hchanged]

/-- More blocks may change, and new ones may as they like. -/
theorem Keeps.mono {changed weaker : BlockId → Prop} (h : ws.Keeps ws' changed)
    (hchanged : ∀ id, id.index < ws.size → changed id → weaker id) : ws.Keeps ws' weaker :=
  ⟨h.size_le, h.top_eq, fun id hid hweaker => h.get?_eq id hid fun hc => hweaker (hchanged id hid hc)⟩

/-- Changing a block that is new changes nothing that was there. -/
theorem Keeps.trans_new (h : ws.Keeps ws' fun _ => False) (h' : ws'.Keeps ws'' (· = id))
    (hid : ws.size ≤ id.index) : ws.Keeps ws'' fun _ => False := by
  refine ((h.mono fun _ _ hchanged => hchanged.elim).trans h').mono ?_
  intro other hother heq
  subst heq
  omega

theorem keeps_modify (ws : Workspace) (id : BlockId) (change : Block → Block) :
    ws.Keeps (ws.modify id change) (· = id) :=
  ⟨by simp, rfl, fun other _ hother => by rw [get?_modify, if_neg hother]⟩

theorem keeps_addBlock (ws : Workspace) (kind : BlockKind) :
    ws.Keeps (ws.addBlock kind).2 fun _ => False := by
  refine ⟨by simp [addBlock, size], rfl, ?_⟩
  intro id hid _
  simp only [get?, addBlock, size] at hid ⊢
  rw [Array.getElem?_push_lt hid, Array.getElem?_eq_getElem hid]

theorem get?_addBlock (ws : Workspace) (kind : BlockKind) :
    (ws.addBlock kind).2.get? (ws.addBlock kind).1 =
      some { id := "b" ++ toString ws.size, kind } := by
  simp [addBlock, get?, size]

theorem size_addBlock (ws : Workspace) (kind : BlockKind) :
    (ws.addBlock kind).2.size = ws.size + 1 := by
  simp [addBlock, size]

theorem index_lt_of_get? (h : ws.get? id = some block) : id.index < ws.size :=
  mem_ids_iff.1 (mem_ids_of_get? h)

/-- At most the labels of a block change: its id, its fields and its position. -/
structure Relabels (ws ws' : Workspace) (id : BlockId) : Prop where
  size_eq : ws'.size = ws.size
  keeps : ws.Keeps ws' (· = id)
  links : ∀ block, ws.get? id = some block → ∃ relabelled, ws'.get? id = some relabelled ∧
    relabelled.inputs = block.inputs ∧ relabelled.next = block.next

theorem Relabels.refl (ws : Workspace) (id : BlockId) : ws.Relabels ws id :=
  ⟨rfl, .refl .., fun block h => ⟨block, h, rfl, rfl⟩⟩

theorem Relabels.trans (h : ws.Relabels ws' id) (h' : ws'.Relabels ws'' id) : ws.Relabels ws'' id := by
  refine ⟨h'.size_eq.trans h.size_eq, h.keeps.trans h'.keeps, ?_⟩
  intro block hget
  obtain ⟨first, hfirst, hinputs, hnext⟩ := h.links block hget
  obtain ⟨second, hsecond, hinputs', hnext'⟩ := h'.links first hfirst
  exact ⟨second, hsecond, hinputs'.trans hinputs, hnext'.trans hnext⟩

theorem relabels_modify (ws : Workspace) (id : BlockId)
    (hinputs : ∀ block, (change block).inputs = block.inputs)
    (hnext : ∀ block, (change block).next = block.next) : ws.Relabels (ws.modify id change) id := by
  refine ⟨size_modify .., keeps_modify .., fun block hget => ⟨change block, ?_, hinputs _, hnext _⟩⟩
  rw [get?_modify, if_pos rfl, hget, Option.map_some]

theorem relabels_setFields (ws : Workspace) (id : BlockId) (fields : List (String × String)) :
    ws.Relabels (fields.foldl (fun ws entry => ws.setField id entry.1 entry.2) ws) id := by
  induction fields generalizing ws with
  | nil => exact .refl ..
  | cons entry rest ih =>
    have hfirst : ws.Relabels (ws.setField id entry.1 entry.2) id :=
      relabels_modify ws id (fun _ => rfl) fun _ => rfl
    exact hfirst.trans (ih _)

end Workspace

/-! ### Steps of a load -/

namespace Loader

variable {α β : Type} {loading after : Loading} {id : BlockId}

/-- A load that goes on after a step goes on from what the step loaded. -/
theorem bind_ok {step : Loader α} {next : α → Loader β} {b : β}
    (h : (step >>= next) loading = .ok (b, after)) :
    ∃ a mid, step loading = .ok (a, mid) ∧ next a mid = .ok (b, after) := by
  have hrun : (step >>= next) loading = (step loading).bind fun ended => next ended.1 ended.2 := rfl
  rw [hrun] at h
  cases hstep : step loading with
  | error e =>
    rw [hstep] at h
    cases h
  | ok ended =>
    rw [hstep] at h
    exact ⟨ended.1, ended.2, rfl, h⟩

theorem within_ok {step : InputStep} {body : Loader α} {a : α}
    (h : within step body loading = .ok (a, after)) : body loading = .ok (a, after) := by
  rw [within] at h
  cases hbody : body loading with
  | error e =>
    rw [hbody] at h
    cases h
  | ok ended =>
    rw [hbody] at h
    exact h

/-- An id that is given is new. -/
theorem identify_some_ok {given : String} (h : identify id (some given) loading = .ok ((), after)) :
    given ∉ loading.seen ∧
      after.workspace = loading.workspace.modify id (fun block => { block with id := given }) ∧
      after.seen = given :: loading.seen := by
  obtain ⟨state, mid, hstate, h⟩ := bind_ok h
  cases hstate
  split at h
  · cases h
  · rename_i hnew
    cases h
    exact ⟨hnew, rfl, rfl⟩

theorem identify_ok {given? : Option String} (h : identify id given? loading = .ok ((), after)) :
    loading.workspace.Relabels after.workspace id := by
  cases given? with
  | none =>
    cases h
    exact .refl ..
  | some given =>
    rw [(identify_some_ok h).2.1]
    exact Workspace.relabels_modify _ id (fun _ => rfl) fun _ => rfl

/-- A block is created, then it gets the id and the fields of its node. -/
theorem steps_of_block {label : NodeLabel} {typeName : String}
    (h : block label loading = .ok ((id, typeName), after)) :
    label.type? = some typeName ∧ id = ⟨loading.workspace.size⟩ ∧ ∃ named,
      identify id label.id? { loading with
          workspace := (loading.workspace.addBlock (.ofTypeName typeName)).2 } = .ok ((), named) ∧
        after.workspace = label.fields.foldl (fun ws entry => ws.setField id entry.1 entry.2) named.workspace ∧
        after.seen = named.seen := by
  rw [block] at h
  cases htype : label.type? with
  | none =>
    rw [htype] at h
    cases h
  | some name =>
    rw [htype] at h
    obtain ⟨created, first, hcreate, h⟩ := bind_ok h
    cases hcreate
    obtain ⟨⟨⟩, named, hidentify, h⟩ := bind_ok h
    obtain ⟨⟨⟩, last, hfields, h⟩ := bind_ok h
    cases h
    cases hfields
    exact ⟨rfl, rfl, named, hidentify, rfl, rfl⟩

/-- Creating the block of a node adds one block, into which nothing is plugged. -/
theorem block_ok {label : NodeLabel} {typeName : String}
    (h : block label loading = .ok ((id, typeName), after)) :
    id = ⟨loading.workspace.size⟩ ∧ after.workspace.size = loading.workspace.size + 1 ∧
      loading.workspace.Keeps after.workspace (fun _ => False) ∧
      ∃ block, after.workspace.get? id = some block ∧ block.inputs = [] ∧ block.next = none := by
  obtain ⟨-, rfl, named, hidentify, hfields, -⟩ := steps_of_block h
  have hrelabels := (identify_ok hidentify).trans (Workspace.relabels_setFields _ _ label.fields)
  rw [← hfields] at hrelabels
  obtain ⟨block, hget, hinputs, hnext⟩ := hrelabels.links _ (Workspace.get?_addBlock _ _)
  have hsize := hrelabels.size_eq.trans (Workspace.size_addBlock ..)
  refine ⟨rfl, hsize, ?_, block, hget, hinputs, hnext⟩
  exact (Workspace.keeps_addBlock ..).trans_new hrelabels.keeps (Nat.le_refl _)

end Loader

/-! ### Parts of a load -/

section

variable {loading after : Loading} {id : BlockId}

theorem Node.steps_of_load {label : NodeLabel} {inputs : Inputs}
    (h : (Node.mk label inputs).load loading = .ok (id, after)) :
    ∃ typeName mid, Loader.block label loading = .ok ((id, typeName), mid) ∧
      inputs.load id typeName mid = .ok ((), after) := by
  rw [Node.load] at h
  obtain ⟨⟨created, typeName⟩, mid, hblock, h⟩ := Loader.bind_ok h
  obtain ⟨⟨⟩, last, hinputs, h⟩ := Loader.bind_ok h
  cases h
  exact ⟨typeName, mid, hblock, hinputs⟩

theorem Chain.steps_of_load {node : Node} {rest : Chain}
    (h : (Chain.link node rest).load loading = .ok (id, after)) :
    ∃ mid next last, node.load loading = .ok (id, mid) ∧ rest.load mid = .ok (next, last) ∧
      after.workspace = last.workspace.connectNext id next ∧ after.seen = last.seen := by
  rw [Chain.load] at h
  obtain ⟨first, mid, hnode, h⟩ := Loader.bind_ok h
  obtain ⟨next, last, hrest, h⟩ := Loader.bind_ok h
  obtain ⟨⟨⟩, linked, hlink, h⟩ := Loader.bind_ok h
  cases hlink
  cases h
  exact ⟨mid, next, last, hnode, hrest, rfl, rfl⟩

theorem Inputs.steps_of_load {name typeName : String} {chain : Chain} {rest : Inputs} {parent : BlockId}
    (h : (Inputs.cons name chain rest).load parent typeName loading = .ok ((), after)) :
    ∃ child mid, chain.load loading = .ok (child, mid) ∧
      rest.load parent typeName
        { mid with workspace := mid.workspace.connectInput parent name child } = .ok ((), after) := by
  rw [Inputs.load] at h
  obtain ⟨child, mid, hchain, h⟩ := Loader.bind_ok h
  obtain ⟨⟨⟩, plugged, hplug, h⟩ := Loader.bind_ok h
  cases hplug
  exact ⟨child, mid, Loader.within_ok hchain, h⟩

theorem Entry.steps_of_load {entry : Entry} (h : entry.load loading = .ok ((), after)) :
    ∃ id mid, entry.chain.load loading = .ok (id, mid) ∧
      after.workspace = mid.workspace.place id entry.position ∧ after.seen = mid.seen := by
  obtain ⟨id, mid, hchain, hplace⟩ := Loader.bind_ok h
  cases hplace
  exact ⟨id, mid, hchain, rfl, rfl⟩

theorem Document.steps_of_load {document : Document} {ws : Workspace} (h : document.load = .ok ws) :
    ∃ after, document.entries.forM Entry.load {} = .ok ((), after) ∧ after.workspace = ws := by
  rw [Document.load] at h
  cases hrun : document.entries.forM Entry.load {} with
  | error e =>
    rw [show (document.entries.forM Entry.load).run {} = .error e from hrun] at h
    cases h
  | ok ended =>
    rw [show (document.entries.forM Entry.load).run {} = .ok ended from hrun] at h
    cases h
    exact ⟨ended.2, rfl, rfl⟩

theorem Workspace.document_of_ofJson {value : Json} {ws : Workspace} (h : Workspace.ofJson value = .ok ws) :
    ∃ document, Document.ofJson? value = some document ∧ document.load = .ok ws := by
  rw [ofJson] at h
  split at h
  · cases h
  · rename_i document hdocument
    exact ⟨document, hdocument, h⟩

end

/-! ### Stacks are loaded -/

/-- From one workspace to the other a stack of new blocks is added, and nothing else changes. -/
structure Stack.Loads (stack : Stack) (ws ws' : Workspace) (id : BlockId) : Prop where
  keeps : ws.Keeps ws' fun _ => False
  at_eq : stack.At ws' (some id)
  nodup : stack.ids.Nodup
  new : ∀ other ∈ stack.ids, ws.size ≤ other.index ∧ other.index < ws'.size

/-- What has been plugged into a block was loaded after it. -/
structure Sockets.Fills (sockets : Sockets) (ws : Workspace) (parent : BlockId) (block : Block) :
    Prop where
  get?_eq : ws.get? parent = some block
  at_eq : sockets.At ws block.inputs
  nodup : sockets.ids.Nodup
  new : ∀ id ∈ sockets.ids, parent.index < id.index ∧ id.index < ws.size

section

variable {ws mid ws' : Workspace} {id parent child next : BlockId} {block : Block} {sockets : Sockets}
  {stack rest : Stack}

theorem nodup_of_subperm {ids others : List BlockId} (h : ids.Subperm others) (hnodup : others.Nodup) :
    ids.Nodup := by
  rcases h with ⟨sub, hperm, hsub⟩
  exact hperm.nodup_iff.1 (hnodup.sublist hsub)

/-- Plugging a loaded stack into a block. -/
theorem Sockets.Fills.insert (h : sockets.Fills ws parent block) (hstack : stack.Loads ws mid child)
    (name : String) :
    (sockets.insert name stack).Fills (mid.connectInput parent name child) parent
      { block with inputs := Table.insert name child block.inputs } := by
  have hparent := Workspace.index_lt_of_get? h.get?_eq
  have hsubperm := sockets.ids_insert_subperm name stack
  have hnew (id : BlockId) (hid : id ∈ (sockets.insert name stack).ids) :
      parent.index < id.index ∧ id.index < mid.size := by
    rcases List.mem_append.1 (hsubperm.subset hid) with hid | hid
    · have := hstack.new id hid
      omega
    · have := h.new id hid
      have := hstack.keeps.size_le
      omega
  have hmid : mid.get? parent = some block := by
    rw [hstack.keeps.get?_eq parent hparent not_false, h.get?_eq]
  refine ⟨?_, ?_, nodup_of_subperm hsubperm ?_, fun id hid => ?_⟩
  · rw [Workspace.connectInput, Workspace.get?_modify, if_pos rfl, hmid]
    rfl
  · have hold : sockets.At mid block.inputs :=
      h.at_eq.frame fun id hid => hstack.keeps.get?_eq id (h.new id hid).2 fun h => h
    refine (hold.insert hstack.at_eq name).frame ?_
    intro id hid
    rw [Workspace.connectInput, Workspace.get?_modify, if_neg]
    rintro rfl
    exact Nat.lt_irrefl _ (hnew id hid).1
  · refine List.nodup_append.2 ⟨hstack.nodup, h.nodup, ?_⟩
    intro id hid other hother heq
    have := hstack.new id hid
    have := h.new other hother
    subst heq
    omega
  · rw [Workspace.connectInput, Workspace.size_modify]
    exact hnew id hid

/-- Loading the rest of a chain after its first block. -/
theorem Stack.Loads.link (h : (Stack.cons id block sockets .nil).Loads ws mid id)
    (hrest : rest.Loads mid ws' next) :
    (Stack.cons id { block with next := some next } sockets rest).Loads ws (ws'.connectNext id next)
      id := by
  obtain ⟨-, hget, hsockets, -⟩ := h.at_eq
  have hid := h.new id (by simp)
  have hnodup := h.nodup
  simp only [Stack.ids, List.append_nil, List.nodup_cons] at hnodup
  have hnew (other : BlockId) (hother : other ∈ sockets.ids) : other ≠ id ∧ other.index < mid.size := by
    refine ⟨?_, (h.new other (by simp [hother])).2⟩
    rintro rfl
    exact hnodup.1 hother
  have hchange (other : BlockId) (hother : other ≠ id) :
      (ws'.connectNext id next).get? other = ws'.get? other := by
    rw [Workspace.connectNext, Workspace.get?_modify, if_neg hother]
  refine ⟨?_, ⟨rfl, ?_, ?_, ?_⟩, ?_, ?_⟩
  · exact (h.keeps.trans hrest.keeps).trans_new (Workspace.keeps_modify ..) hid.1
  · rw [Workspace.connectNext, Workspace.get?_modify, if_pos rfl,
      hrest.keeps.get?_eq id hid.2 not_false, hget]
    rfl
  · refine hsockets.frame ?_
    intro other hother
    obtain ⟨hne, hlt⟩ := hnew other hother
    rw [hchange other hne, hrest.keeps.get?_eq other hlt not_false]
  · refine hrest.at_eq.frame fun other hother => hchange other ?_
    have := hrest.new other hother
    rintro rfl
    omega
  · simp only [Stack.ids, List.nodup_cons, List.nodup_append, List.mem_append, not_or]
    refine ⟨⟨hnodup.1, fun hother => ?_⟩, hnodup.2, hrest.nodup, fun other hother more hmore heq => ?_⟩
    · have := hrest.new id hother
      omega
    · have := (hnew other hother).2
      have := hrest.new more hmore
      subst heq
      omega
  · intro other hother
    rw [Workspace.connectNext, Workspace.size_modify]
    simp only [Stack.ids, List.mem_cons, List.mem_append] at hother
    have := hrest.keeps.size_le
    have := h.keeps.size_le
    rcases hother with rfl | hother | hother
    · omega
    · have := h.new other (by simp [hother])
      omega
    · have := hrest.new other hother
      omega

end

mutual

/-- A node is loaded as a stack of one block, with what is plugged into it. -/
theorem Node.load_ok {node : Node} {loading after : Loading} {id : BlockId}
    (h : node.load loading = .ok (id, after)) :
    ∃ block sockets, (Stack.cons id block sockets .nil).Loads loading.workspace after.workspace id := by
  match node with
  | .mk label inputs =>
    obtain ⟨typeName, mid, hblock, hinputs⟩ := Node.steps_of_load h
    obtain ⟨hid, hsize, hkeeps, block, hget, hnone, hnext⟩ := Loader.block_ok hblock
    have hempty : Sockets.nil.Fills mid.workspace id block :=
      ⟨hget, hnone, by simp, fun other hother => by simp at hother⟩
    obtain ⟨filled, sockets, hfills, hlast, hchanged⟩ := Inputs.load_ok hinputs hempty
    have hgrown := hchanged.size_le
    have hindex : id.index = loading.workspace.size := by rw [hid]
    refine ⟨filled, sockets, hkeeps.trans_new hchanged (Nat.le_of_eq hindex.symm),
      ⟨rfl, hfills.get?_eq, hfills.at_eq, hlast.trans hnext⟩, ?_, fun other hother => ?_⟩
    · simp only [Stack.ids, List.append_nil, List.nodup_cons]
      exact ⟨fun hother => Nat.lt_irrefl _ (hfills.new id hother).1, hfills.nodup⟩
    · simp only [Stack.ids, List.append_nil, List.mem_cons] at hother
      rcases hother with rfl | hother
      · omega
      · have := hfills.new other hother
        omega

/-- A chain is loaded as a stack. -/
theorem Chain.load_ok {chain : Chain} {loading after : Loading} {id : BlockId}
    (h : chain.load loading = .ok (id, after)) :
    ∃ stack : Stack, stack.Loads loading.workspace after.workspace id := by
  match chain with
  | .last node =>
    rw [Chain.load] at h
    obtain ⟨block, sockets, hstack⟩ := Node.load_ok h
    exact ⟨_, hstack⟩
  | .link node rest =>
    obtain ⟨mid, next, last, hnode, hrest, hlink, -⟩ := Chain.steps_of_load h
    obtain ⟨block, sockets, hstack⟩ := Node.load_ok hnode
    obtain ⟨others, hothers⟩ := Chain.load_ok hrest
    rw [hlink]
    exact ⟨_, hstack.link hothers⟩

/-- The inputs of a block are loaded as stacks that are plugged into it. -/
theorem Inputs.load_ok {inputs : Inputs} {parent : BlockId} {typeName : String} {loading after : Loading}
    (h : inputs.load parent typeName loading = .ok ((), after)) {block : Block} {sockets : Sockets}
    (hfills : sockets.Fills loading.workspace parent block) :
    ∃ filled : Block, ∃ all : Sockets, all.Fills after.workspace parent filled ∧
      filled.next = block.next ∧ loading.workspace.Keeps after.workspace (· = parent) := by
  match inputs with
  | .nil =>
    rw [Inputs.load] at h
    cases h
    exact ⟨block, sockets, hfills, rfl, .refl ..⟩
  | .cons name chain rest =>
    obtain ⟨child, mid, hchain, hrest⟩ := Inputs.steps_of_load h
    obtain ⟨stack, hstack⟩ := Chain.load_ok hchain
    obtain ⟨filled, all, hall, hnext, hkeeps⟩ := Inputs.load_ok hrest (hfills.insert hstack name)
    refine ⟨filled, all, hall, hnext, ?_⟩
    have hplugged : mid.workspace.Keeps (mid.workspace.connectInput parent name child) (· = parent) :=
      Workspace.keeps_modify ..
    exact ((hstack.keeps.mono fun _ _ h => h.elim).trans hplugged).trans hkeeps

end

/-! ### The canvas -/

/-- The blocks of a list start stacks, and no block is in two places of them. -/
structure Workspace.Forest (ws : Workspace) (tops : List BlockId) (forest : List Stack) : Prop where
  at_eq : List.Forall₂ (fun top stack => stack.At ws (some top)) tops forest
  nodup : (forest.flatMap Stack.ids).Nodup

/-- A forest on the canvas of a workspace under construction. -/
structure Workspace.Grown (ws : Workspace) (forest : List Stack) : Prop where
  holds : ws.Forest ws.top forest
  index_lt : ∀ id ∈ forest.flatMap Stack.ids, id.index < ws.size

section

variable {ws mid : Workspace} {forest : List Stack} {stack : Stack} {id : BlockId}

theorem forall₂_frame {ws' : Workspace} {tops : List BlockId}
    (h : List.Forall₂ (fun top (stack : Stack) => stack.At ws (some top)) tops forest)
    (hsame : ∀ id ∈ forest.flatMap Stack.ids, ws'.get? id = ws.get? id) :
    List.Forall₂ (fun top (stack : Stack) => stack.At ws' (some top)) tops forest := by
  induction h with
  | nil => exact .nil
  | cons hstack _ ih =>
    refine .cons (hstack.frame fun id hid => hsame id ?_) (ih fun id hid => hsame id ?_)
    · rw [List.flatMap_cons]
      exact List.mem_append_left _ hid
    · rw [List.flatMap_cons]
      exact List.mem_append_right _ hid

/-- Placing a loaded stack on the canvas. -/
theorem Workspace.Grown.place (h : ws.Grown forest) (hstack : stack.Loads ws mid id)
    (position : Position) : ∃ placed : Stack, (mid.place id position).Grown (forest ++ [placed]) := by
  match stack with
  | .nil => cases hstack.at_eq
  | .cons other block sockets rest =>
    obtain ⟨heq, hget, hsockets, hrest⟩ := hstack.at_eq
    cases heq
    have hid := hstack.new id (by simp)
    have hnodup := hstack.nodup
    simp only [Stack.ids, List.nodup_cons, List.mem_append, not_or] at hnodup
    have hchange (other : BlockId) (hother : other ≠ id) :
        (mid.place id position).get? other = mid.get? other := by
      show (mid.modify id _).get? other = _
      rw [Workspace.get?_modify, if_neg hother]
    have hsize : (mid.place id position).size = mid.size := by
      show (mid.modify id _).size = _
      rw [Workspace.size_modify]
    refine ⟨.cons id { block with position := some position } sockets rest, ⟨?_, ?_⟩, ?_⟩
    · show List.Forall₂ _ (mid.top ++ [id]) _
      rw [hstack.keeps.top_eq]
      refine List.rel_append (forall₂_frame h.holds.at_eq fun other hother => ?_)
        (.cons ⟨rfl, ?_, ?_, ?_⟩ .nil)
      · have := h.index_lt other hother
        rw [hchange other, hstack.keeps.get?_eq other this not_false]
        rintro rfl
        omega
      · show (mid.modify id _).get? id = _
        rw [Workspace.get?_modify, if_pos rfl, hget]
        rfl
      · refine hsockets.frame fun other hother => hchange other ?_
        rintro rfl
        exact hnodup.1.1 hother
      · refine hrest.frame fun other hother => hchange other ?_
        rintro rfl
        exact hnodup.1.2 hother
    · rw [List.flatMap_append, List.flatMap_singleton]
      refine List.nodup_append.2 ⟨h.holds.nodup, hstack.nodup, ?_⟩
      intro other hother same hsame heq
      have := h.index_lt other hother
      have := hstack.new same hsame
      subst heq
      omega
    · intro other hother
      rw [List.flatMap_append, List.flatMap_singleton] at hother
      have hle := hstack.keeps.size_le
      rw [hsize]
      rcases List.mem_append.1 hother with hother | hother
      · exact Nat.lt_of_lt_of_le (h.index_lt other hother) hle
      · exact (hstack.new other hother).2

end

theorem entries_load_ok {entries : List Entry} {loading after : Loading}
    (h : entries.forM Entry.load loading = .ok ((), after)) {forest : List Stack}
    (hgrown : loading.workspace.Grown forest) : ∃ more, after.workspace.Grown (forest ++ more) := by
  induction entries generalizing loading forest with
  | nil =>
    cases h
    exact ⟨[], by rwa [List.append_nil]⟩
  | cons entry rest ih =>
    obtain ⟨⟨⟩, next, hentry, h⟩ := Loader.bind_ok h
    obtain ⟨id, mid, hchain, hplace, -⟩ := Entry.steps_of_load hentry
    obtain ⟨stack, hstack⟩ := Chain.load_ok hchain
    obtain ⟨placed, hplaced⟩ := hgrown.place hstack entry.position
    rw [← hplace] at hplaced
    obtain ⟨more, hmore⟩ := ih h hplaced
    exact ⟨placed :: more, by rwa [List.append_assoc] at hmore⟩

/-- The blocks on the canvas of a loaded workspace, in any order, start stacks that share no block. -/
theorem Workspace.forest_of_ofJson {value : Json} {ws : Workspace} (h : Workspace.ofJson value = .ok ws)
    {tops : List BlockId} (htops : tops.Perm ws.top) : ∃ forest, ws.Forest tops forest := by
  obtain ⟨document, -, hload⟩ := document_of_ofJson h
  obtain ⟨loading, hforM, rfl⟩ := Document.steps_of_load hload
  have hempty : Workspace.Grown ({} : Loading).workspace [] :=
    ⟨⟨.nil, by simp⟩, fun _ hid => by simp at hid⟩
  obtain ⟨forest, hgrown⟩ := entries_load_ok hforM hempty
  rw [List.nil_append] at hgrown
  obtain ⟨ordered, hat, hperm⟩ := List.perm_comp_forall₂ htops hgrown.holds.at_eq
  exact ⟨ordered, hat, (hperm.flatMap_right _).nodup_iff.2 hgrown.holds.nodup⟩

end BlockProgram
