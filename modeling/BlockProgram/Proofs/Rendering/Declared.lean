import BlockProgram.Proofs.Json.Ordered
import BlockProgram.Proofs.Rendering.Link
import BlockProgram.Proofs.Rendering.Triple
import BlockProgram.Proofs.Rendering.Walk
import BlockProgram.Schema.Builtin

/-!
What has an influence on a program. A template names the fields and inputs that it reads, and the shape of the
same kind names those that it declares; the two are written apart, but they name the same ones, and each as the
same sort (`fields_eq_declared`, `inputs_eq_declared`).

    shape       .fieldInput "PROPERTY"      .inputValue "OBJECT"
    template    .field "PROPERTY"           .value "OBJECT"

So workspaces that agree in all that is declared have the same program or fail with the same error
(`Generator.generate_of_agrees`), and whatever is written or plugged in under any other name changes nothing.
-/

namespace BlockProgram

/-! ### What is declared and what is read -/

namespace Arg

/-- The field that an argument declares. -/
def field? : Arg → Option String
  | fieldInput name _ | fieldNumber name _ | fieldDropdown name _ => some name
  | _ => none

/-- The input that an argument declares, for a value or for statements. -/
def input? : Arg → Option String
  | inputValue name _ | inputStatement name _ => some name
  | _ => none

end Arg

namespace BlockSchema

/-- The fields that a shape declares. -/
def fields (schema : BlockSchema) : List String :=
  (schema.args ++ schema.bodyArgs).filterMap Arg.field?

/-- The inputs that a shape declares. -/
def inputs (schema : BlockSchema) : List String :=
  (schema.args ++ schema.bodyArgs).filterMap Arg.input?

end BlockSchema

/-- The field that a piece reads. -/
def Piece.field? : Piece → Option String
  | .field name _ | .quoted name => some name
  | _ => none

namespace BlockKind

/-- The fields that the template of a kind reads. -/
def fields (kind : BlockKind) : List String :=
  kind.template.pieces.filterMap Piece.field?

/-- A kind reads the fields that its shape declares. -/
theorem fields_eq_declared (kind : BlockKind) : kind.fields = (BlockSchema.ofKind kind).fields := by
  cases kind <;> rfl

/-- A kind reads the inputs that its shape declares. -/
theorem inputs_eq_declared (kind : BlockKind) : kind.inputs = (BlockSchema.ofKind kind).inputs := by
  cases kind <;> rfl

end BlockKind

/-! ### Agreement -/

/-- The blocks differ at most in fields and inputs that their kind does not declare. -/
structure Block.Agrees (block block' : Block) : Prop where
  id : block'.id = block.id
  kind : block'.kind = block.kind
  next : block'.next = block.next
  position : block'.position = block.position
  field : ∀ name ∈ (BlockSchema.ofKind block.kind).fields, block'.field? name = block.field? name
  input : ∀ name ∈ (BlockSchema.ofKind block.kind).inputs, block'.input? name = block.input? name

/-- The workspaces have blocks that agree, one by one, and the same blocks on their canvas. -/
structure Workspace.Agrees (ws ws' : Workspace) : Prop where
  top : ws'.top = ws.top
  size : ws'.size = ws.size
  block : ∀ id, Option.Rel Block.Agrees (ws.get? id) (ws'.get? id)

theorem Block.Agrees.refl (block : Block) : block.Agrees block :=
  ⟨rfl, rfl, rfl, rfl, fun _ _ => rfl, fun _ _ => rfl⟩

namespace Workspace.Agrees

variable {ws ws' : Workspace} {id : BlockId} {block : Block}

theorem cases (h : ws.Agrees ws') (id : BlockId) :
    (ws.get? id = none ∧ ws'.get? id = none) ∨
      ∃ block block', ws.get? id = some block ∧ ws'.get? id = some block' ∧ block.Agrees block' := by
  have hblock := h.block id
  revert hblock
  generalize ws.get? id = found, ws'.get? id = found'
  rintro (hblock | _)
  · exact .inr ⟨_, _, rfl, rfl, hblock⟩
  · exact .inl ⟨rfl, rfl⟩

/-- What is the same for blocks that agree is the same for what stands under an id. -/
theorem map_get? {α : Type} (h : ws.Agrees ws') (read : Block → α)
    (hread : ∀ block block', block.Agrees block' → read block' = read block) (id : BlockId) :
    (ws'.get? id).map read = (ws.get? id).map read := by
  rcases h.cases id with ⟨hget, hget'⟩ | ⟨block, block', hget, hget', hblock⟩
  · rw [hget, hget']
  · rw [hget, hget', Option.map_some, Option.map_some, hread block block' hblock]

theorem walk_eq (h : ws.Agrees ws') (passed : List BlockId) (next : Option BlockId) :
    ws'.walk passed next = ws.walk passed next := by
  induction passed, next using walk.induct ws with
  | case1 passed => rw [walk, walk]
  | case2 passed id hget =>
    rcases h.cases id with ⟨-, hget'⟩ | ⟨block, block', hsome, -, -⟩
    · rw [walk_missing hget, walk_missing hget']
    · cases hget.symm.trans hsome
  | case3 passed id block hget hback =>
    rcases h.cases id with ⟨hnone, -⟩ | ⟨other, block', -, hget', -⟩
    · cases hget.symm.trans hnone
    · rw [walk_back hget hback, walk_back hget' hback]
  | case4 passed id block hget hfree ih =>
    rcases h.cases id with ⟨hnone, -⟩ | ⟨other, block', hother, hget', hblock⟩
    · cases hget.symm.trans hnone
    · cases hget.symm.trans hother
      rw [walk_step hget hfree, walk_step hget' hfree, hblock.next, ih]

theorem followers_eq (h : ws.Agrees ws') (id : BlockId) : ws'.followers id = ws.followers id := by
  rw [followers, followers, h.walk_eq]
  rcases h.cases id with ⟨hget, hget'⟩ | ⟨block, block', hget, hget', hblock⟩
  · rw [hget, hget']
  · rw [hget, hget', Option.bind_some, Option.bind_some, hblock.next]

/-- The canvas is read in the same order. -/
theorem topBlocks_eq (h : ws.Agrees ws') : ws'.topBlocks = ws.topBlocks := by
  have hkey (id : BlockId) : ws'.canvasKey id = ws.canvasKey id := by
    rcases h.cases id with ⟨hget, hget'⟩ | ⟨block, block', hget, hget', hblock⟩
    · rw [canvasKey, canvasKey, hget, hget']
    · rw [canvasKey, canvasKey, hget, hget', Option.bind_some, Option.bind_some, Option.map_some, Option.map_some,
        hblock.position, hblock.id]
  simp only [topBlocks, hkey, h.top]

theorem kinds_eq (h : ws.Agrees ws') :
    ws'.blocks.toList.map Block.kind = ws.blocks.toList.map Block.kind := by
  refine List.ext_getElem? fun place => ?_
  rw [List.getElem?_map, List.getElem?_map, Array.getElem?_toList, Array.getElem?_toList]
  exact h.map_get? Block.kind (fun _ _ hblock => hblock.kind) ⟨place⟩

end Workspace.Agrees

/-! ### Rendering what agrees -/

namespace Setting

open Rendering

variable {ws ws' : Workspace} {g : Generator} {render : Renderer} {id : BlockId} {block block' : Block}

theorem lookup_bind_eq {α : Type} {next next' : Block → Rendering α} (h : ws.Agrees ws') (id : BlockId)
    (hnext : ∀ block block', block.Agrees block' → next' block' = next block) :
    lookup ws' id >>= next' = lookup ws id >>= next := by
  rw [lookup, lookup]
  rcases h.cases id with ⟨hget, hget'⟩ | ⟨block, block', hget, hget', hblock⟩
  · rw [hget, hget']
    rfl
  · rw [hget, hget']
    exact hnext block block' hblock

theorem ofRepeated_eq (h : block.Agrees block') : GenerateError.ofRepeated block' = .ofRepeated block := by
  rw [GenerateError.ofRepeated, GenerateError.ofRepeated, h.id, h.kind]

theorem during_eq {α : Type} (h : block.Agrees block') (id : BlockId) (body : Rendering α) :
    during id block' body = during id block body := by
  funext pass
  rw [during, during, ofRepeated_eq h]

theorem settleEnd_eq (h : ws.Agrees ws') (stop : ChainEnd) : settleEnd ws' stop = settleEnd ws stop := by
  cases stop with
  | complete | missing => rfl
  | back id => exact lookup_bind_eq h id fun block block' hblock => by rw [ofRepeated_eq hblock]

theorem typeNameAt_eq (h : ws.Agrees ws') (id : BlockId) :
    typeNameAt ⟨ws', g⟩ id = typeNameAt ⟨ws, g⟩ id := by
  rw [typeNameAt, typeNameAt]
  dsimp only
  rw [h.map_get? (fun block => block.kind.typeName) fun _ _ hblock => by rw [hblock.kind]]

section

variable {input : String} (h : ws.Agrees ws') (hblock : block.Agrees block')
  (hinput : block'.input? input = block.input? input)

include h hblock hinput

theorem valueText_eq (order : Order) :
    valueText ⟨ws', g⟩ render block' input order = valueText ⟨ws, g⟩ render block input order := by
  unfold valueText
  simp only [hinput, hblock.id, typeNameAt_eq h]

theorem bodyText_eq : bodyText ⟨ws', g⟩ render block' input = bodyText ⟨ws, g⟩ render block input := by
  unfold bodyText
  simp only [hinput, hblock.id, typeNameAt_eq h]

omit hinput in
theorem itemTexts_eq (stop : ChainEnd) (items : List BlockId) :
    itemTexts ⟨ws', g⟩ render block' input stop items = itemTexts ⟨ws, g⟩ render block input stop items := by
  induction items with
  | nil => rw [itemTexts, itemTexts, settleEnd_eq h]
  | cons item rest ih =>
    rw [itemTexts, itemTexts]
    simp only [ih, hblock.id, typeNameAt_eq h]

theorem chainItems_eq : chainItems ⟨ws', g⟩ render block' input = chainItems ⟨ws, g⟩ render block input := by
  have hchain : ws'.chainFrom (block'.input? input) = ws.chainFrom (block.input? input) := by
    rw [Workspace.chainFrom, Workspace.chainFrom, hinput, h.walk_eq]
  rw [chainItems, chainItems]
  dsimp only
  rw [hchain, itemTexts_eq h hblock]

theorem valueOr_eq (order : Order) (placeholder : String) :
    valueOr ⟨ws', g⟩ render block' input order placeholder =
      valueOr ⟨ws, g⟩ render block input order placeholder := by
  rw [valueOr, valueOr, valueText_eq h hblock hinput]

end

/-- A piece reads nothing but the field or the input that it names. -/
theorem pieceText_eq (h : ws.Agrees ws') (hblock : block.Agrees block') (id : BlockId) {piece : Piece}
    (hfield : ∀ name, piece.field? = some name → block'.field? name = block.field? name)
    (hinput : ∀ input, piece.input? = some input → block'.input? input = block.input? input) :
    pieceText ⟨ws', g⟩ render id block' piece = pieceText ⟨ws, g⟩ render id block piece := by
  cases piece with
  | text | literal => rfl
  | field name | quoted name => rw [pieceText, pieceText, hfield name rfl]
  | value input order => exact valueOr_eq h hblock (hinput input rfl) order _
  | body input => exact bodyText_eq h hblock (hinput input rfl)
  | list input | properties input | parameters input =>
    rw [pieceText, pieceText, chainItems_eq h hblock (hinput input rfl)]
  | callee input order => rw [pieceText, pieceText, valueOr_eq h hblock (hinput input rfl)]
  | arguments => rw [pieceText, pieceText, argumentsText, argumentsText, hblock.next]

theorem piecesText_eq (h : ws.Agrees ws') (hblock : block.Agrees block') (id : BlockId) {pieces : List Piece}
    (hpieces : ∀ piece ∈ pieces, piece ∈ block.kind.template.pieces) :
    piecesText ⟨ws', g⟩ render id block' pieces = piecesText ⟨ws, g⟩ render id block pieces := by
  induction pieces with
  | nil => rfl
  | cons piece rest ih =>
    have hpiece := hpieces piece (List.mem_cons_self ..)
    have hfirst : pieceText ⟨ws', g⟩ render id block' piece = pieceText ⟨ws, g⟩ render id block piece := by
      refine pieceText_eq h hblock id (fun name hname => hblock.field name ?_) fun input hinput =>
        hblock.input input ?_
      · rw [← BlockKind.fields_eq_declared]
        exact List.mem_filterMap.2 ⟨piece, hpiece, hname⟩
      · rw [← BlockKind.inputs_eq_declared]
        exact Piece.mem_inputs hpiece hinput
    rw [piecesText, piecesText, hfirst, ih fun other hother => hpieces other (List.mem_cons_of_mem _ hother)]

theorem blockCode_eq (h : ws.Agrees ws') (hblock : block.Agrees block') (id : BlockId) :
    blockCode ⟨ws', g⟩ render id block' = blockCode ⟨ws, g⟩ render id block := by
  rw [blockCode, blockCode, hblock.kind, piecesText_eq h hblock id fun _ hpiece => hpiece]

theorem chainText_eq (h : ws.Agrees ws') (stop : ChainEnd) (ids : List BlockId) :
    chainText ⟨ws', g⟩ render stop ids = chainText ⟨ws, g⟩ render stop ids := by
  induction ids with
  | nil => rw [chainText, chainText, settleEnd_eq h]
  | cons id rest ih =>
    rw [chainText, chainText]
    refine lookup_bind_eq h id fun block block' hblock => ?_
    rw [during_eq hblock, blockCode_eq h hblock, ih]

/-- Blocks are rendered alike, to any depth. -/
theorem renderAt_eq (h : ws.Agrees ws') (g : Generator) (depth : Nat) :
    renderAt ⟨ws', g⟩ depth = renderAt ⟨ws, g⟩ depth := by
  induction depth with
  | zero => rfl
  | succ depth ih =>
    funext id extent
    rw [renderAt, renderAt]
    refine lookup_bind_eq h id fun block block' hblock => ?_
    simp only [during_eq hblock, blockCode_eq h hblock, ih, h.followers_eq, chainText_eq h]

theorem renderBlock_eq_of_agrees (h : ws.Agrees ws') (g : Generator) (id : BlockId) (extent : Extent) :
    renderBlock ⟨ws', g⟩ id extent = renderBlock ⟨ws, g⟩ id extent := by
  have hdepth : enoughDepth ⟨ws', g⟩ = enoughDepth ⟨ws, g⟩ := congrArg (· + 1) h.size
  funext pass
  refine Option.some.inj ?_
  rw [renderBlock, renderBlock, ← step_unlimited, ← step_unlimited, hdepth, renderAt_eq h]

theorem topTexts_eq (h : ws.Agrees ws') (g : Generator) (ids : List BlockId) :
    topTexts ⟨ws', g⟩ ids = topTexts ⟨ws, g⟩ ids := by
  induction ids with
  | nil => rfl
  | cons id rest ih => rw [topTexts, topTexts, renderBlock_eq_of_agrees h, ih]

end Setting

namespace Generator

variable {ws ws' : Workspace}

theorem missingLiteral_of_agrees (h : ws.Agrees ws') (g : Generator) :
    ws'.blocks.toList.findSome? g.missingLiteral? = ws.blocks.toList.findSome? g.missingLiteral? := by
  let missing (kind : BlockKind) := g.missingLiteral? { id := "", kind }
  have hmissing : g.missingLiteral? = missing ∘ Block.kind := rfl
  rw [hmissing, ← List.findSome?_map, ← List.findSome?_map, h.kinds_eq]

/-- Workspaces that agree in all that is declared have the same program, or fail with the same error. -/
theorem generate_of_agrees (h : ws.Agrees ws') (g : Generator) : g.generate ws' = g.generate ws := by
  rw [generate, generate, Setting.program_eq, Setting.program_eq]
  dsimp only
  rw [missingLiteral_of_agrees h, h.topBlocks_eq, Setting.topTexts_eq h]

end Generator

/-! ### Undeclared names -/

namespace Workspace

variable {ws : Workspace} {id : BlockId}

/-- A change to one block that leaves a block that agrees leaves a workspace that agrees. -/
theorem agrees_modify {change : Block → Block}
    (hchange : ∀ block, ws.get? id = some block → block.Agrees (change block)) :
    ws.Agrees (ws.modify id change) where
  top := rfl
  size := by simp [modify, size]
  block other := by
    have hget : (ws.modify id change).get? other =
        if id.index = other.index then (ws.get? other).map change else ws.get? other :=
      Array.getElem?_modify
    rw [hget]
    split
    · rename_i hindex
      obtain rfl : id = other := congrArg BlockId.mk hindex
      cases hfound : ws.get? id with
      | none => exact .none
      | some block => exact .some (hchange block hfound)
    · cases ws.get? other with
      | none => exact .none
      | some block => exact .some (.refl block)

theorem agrees_setField {name : String}
    (h : ∀ block, ws.get? id = some block → name ∉ (BlockSchema.ofKind block.kind).fields) (value : String) :
    ws.Agrees (ws.setField id name value) := by
  refine agrees_modify fun block hget => ⟨rfl, rfl, rfl, rfl, fun other hother => ?_, fun _ _ => rfl⟩
  have hne : other ≠ name := by
    rintro rfl
    exact h block hget hother
  exact (Table.find?_insert name other value block.fields).trans (if_neg hne)

theorem agrees_connectInput {name : String}
    (h : ∀ block, ws.get? id = some block → name ∉ (BlockSchema.ofKind block.kind).inputs) (child : BlockId) :
    ws.Agrees (ws.connectInput id name child) := by
  refine agrees_modify fun block hget => ⟨rfl, rfl, rfl, rfl, fun _ _ => rfl, fun other hother => ?_⟩
  have hne : other ≠ name := by
    rintro rfl
    exact h block hget hother
  exact (Table.find?_insert name other child block.inputs).trans (if_neg hne)

end Workspace

/-- **What a shape does not declare has no influence.** Whatever is written to a block under a name that is not a
field of its kind, or plugged into it under a name that is not an input of its kind, the workspace has the same
program or fails with the same error. -/
theorem Generator.generate_undeclared (g : Generator) (ws : Workspace) (id : BlockId) (name : String) :
    ((∀ block, ws.get? id = some block → name ∉ (BlockSchema.ofKind block.kind).fields) →
      ∀ value, g.generate (ws.setField id name value) = g.generate ws) ∧
    ((∀ block, ws.get? id = some block → name ∉ (BlockSchema.ofKind block.kind).inputs) →
      ∀ child, g.generate (ws.connectInput id name child) = g.generate ws) :=
  ⟨fun h value => generate_of_agrees (Workspace.agrees_setField h value) g,
    fun h child => generate_of_agrees (Workspace.agrees_connectInput h child) g⟩

/-- The access `user.size`. -/
def propertyOfUser : Workspace where
  blocks := #[
    { id := "b0", kind := .objectPropertyAccess, fields := [("PROPERTY", "size")], inputs := [("OBJECT", ⟨1⟩)] },
    { id := "b1", kind := .variableReference, fields := [("VAR_NAME", "user")] }]
  top := [⟨0⟩]

/-- The object of an access is an input and its property is a field. Under the other sort, the name of either means
nothing, even where what is plugged in leads back. -/
theorem propertyOfUser_undeclared :
    Generator.generate {} propertyOfUser = .ok "user.size;" ∧
    Generator.generate {} (propertyOfUser.setField ⟨0⟩ "OBJECT" "guest") = .ok "user.size;" ∧
    Generator.generate {} (propertyOfUser.connectInput ⟨0⟩ "PROPERTY" ⟨0⟩) = .ok "user.size;" ∧
    Generator.generate {} (propertyOfUser.connectInput ⟨0⟩ "OBJECT" ⟨0⟩) =
      .error (.cycle "b0" "object_property_access") := by
  have hprogram : Generator.generate {} propertyOfUser = .ok "user.size;" := by
    cbv
  have hfield : ∀ block, propertyOfUser.get? ⟨0⟩ = some block →
      "OBJECT" ∉ (BlockSchema.ofKind block.kind).fields := by
    rintro _ ⟨⟩
    decide
  have hinput : ∀ block, propertyOfUser.get? ⟨0⟩ = some block →
      "PROPERTY" ∉ (BlockSchema.ofKind block.kind).inputs := by
    rintro _ ⟨⟩
    decide
  refine ⟨hprogram, ?_, ?_, by cbv⟩
  · rw [(Generator.generate_undeclared {} propertyOfUser ⟨0⟩ "OBJECT").1 hfield "guest", hprogram]
  · rw [(Generator.generate_undeclared {} propertyOfUser ⟨0⟩ "PROPERTY").2 hinput ⟨0⟩, hprogram]

end BlockProgram
