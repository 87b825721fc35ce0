import BlockProgram.Generator.Fragment
import BlockProgram.Generator.Pass
import BlockProgram.Text.Lines
import BlockProgram.Text.Quoted

/-!
How the pieces of a template are rendered, given a way to render the blocks that they refer to. Blocks
are read in the order of the pieces, which is the order of their texts.
-/

namespace BlockProgram

/-- What is rendered, and with what. -/
structure Setting where
  workspace : Workspace
  generator : Generator

/-- How much of a chain is rendered: its first block alone, or all of it. -/
inductive Extent where
  | alone
  | chain
  deriving DecidableEq, Repr

/-- A way to render a block. -/
abbrev Renderer := BlockId → Extent → Rendering Code

namespace Setting

open Rendering

/-! ### Sockets -/

/-- The type name of the block under an id; empty if there is none. -/
def typeNameAt (s : Setting) (id : BlockId) : String :=
  ((s.workspace.get? id).map fun block => block.kind.typeName).getD ""

/-- The expression in a value socket, in parentheses if it binds too loosely. An empty socket and an
empty expression give no text. -/
def valueText (s : Setting) (render : Renderer) (block : Block) (input : String) (order : Order) :
    Rendering Text :=
  match block.input? input with
  | none => pure []
  | some child => do
    match ← render child .chain with
    | .expression text childOrder =>
      return if !text.isEmpty && childOrder.needsParens order then Text.parenthesize text else text
    | .statement _ => throw (.expectedValue block.id input (s.typeNameAt child))

/-- The statements in a socket, indented. -/
def bodyText (s : Setting) (render : Renderer) (block : Block) (input : String) : Rendering Text :=
  match block.input? input with
  | none => pure []
  | some child => do
    match ← render child .chain with
    | .statement text => return Text.indentLines s.generator.indent text
    | .expression .. => throw (.expectedStatement block.id input (s.typeNameAt child))

/-- The texts of the blocks of a chain in a socket, each rendered on its own. -/
def itemTexts (s : Setting) (render : Renderer) (block : Block) (input : String) (stop : ChainEnd) :
    List BlockId → Rendering (List Text)
  | [] => do
    settleEnd s.workspace stop
    return []
  | item :: rest => do
    match ← render item .alone with
    | .statement text =>
      let texts ← itemTexts s render block input stop rest
      return text :: texts
    | .expression .. => throw (.expectedStatement block.id input (s.typeNameAt item))

/-- The texts of the chain in a socket. -/
def chainItems (s : Setting) (render : Renderer) (block : Block) (input : String) :
    Rendering (List Text) :=
  let chain := s.workspace.chainFrom (block.input? input)
  s.itemTexts render block input chain.2 chain.1

/-! ### Pieces -/

/-- The text in a value socket, or the placeholder when there is none. -/
def valueOr (s : Setting) (render : Renderer) (block : Block) (input : String) (order : Order)
    (placeholder : String) : Rendering Text := do
  let text ← s.valueText render block input order
  return if text.isEmpty then placeholder.toList else text

/-- The code of the block after a call, which becomes its argument list. The block is consumed, so
that the chain of the call does not render it again. -/
def argumentsText (render : Renderer) (block : Block) : Rendering Text :=
  match block.next with
  | none => pure []
  | some params => do
    let code ← render params .alone
    consume params
    return code.text

/-- The text of one piece of a block. -/
def pieceText (s : Setting) (render : Renderer) (id : BlockId) (block : Block) :
    Piece → Rendering Text
  | .text text => pure text.toList
  | .field name missing => pure ((block.field? name).getD missing).toList
  | .quoted name => pure (Text.quote ((block.field? name).getD "").toList)
  | .value input order placeholder => s.valueOr render block input order placeholder
  | .body input => s.bodyText render block input
  | .list input => do
    let items ← s.chainItems render block input
    return Text.commaSeparated items
  | .properties input => do
    let items ← s.chainItems render block input
    return Text.braced items
  | .callee input order placeholder => do
    let text ← s.valueOr render block input order placeholder
    return Text.bareCallee text
  | .arguments => argumentsText render block
  | .parameters input => do
    if ← takeConsumed id then return []
    let items ← s.chainItems render block input
    return Text.commaSeparated items
  | .literal name =>
    match s.generator.literal? name with
    | none => throw (.unknownCustomType name)
    | some text => pure text.toList

/-- The texts of pieces, joined. -/
def piecesText (s : Setting) (render : Renderer) (id : BlockId) (block : Block) :
    List Piece → Rendering Text
  | [] => pure []
  | piece :: rest => do
    let text ← s.pieceText render id block piece
    let more ← piecesText s render id block rest
    return text ++ more

/-- The code of one block, without the blocks after it. -/
def blockCode (s : Setting) (render : Renderer) (id : BlockId) (block : Block) : Rendering Code := do
  let template := block.kind.template
  let text ← s.piecesText render id block template.pieces
  return .ofShape text template.shape

/-! ### Routines have what their blocks have -/

variable {s : Setting} {render : Renderer} {P : {α : Type} → Rendering α → Prop}

theorem closed_valueText_of_input (h : Closed P) (block : Block) (input : String) (order : Order)
    (hrender : ∀ child, block.input? input = some child → P (render child .chain)) :
    P (s.valueText render block input order) := by
  unfold valueText
  split
  · exact h.pure _
  · rename_i child hchild
    refine h.bind (hrender child hchild) fun code => ?_
    cases code with
    | expression => exact h.pure _
    | statement => exact h.throw _

theorem closed_valueText (h : Closed P) (hrender : ∀ id extent, P (render id extent)) (block : Block)
    (input : String) (order : Order) : P (s.valueText render block input order) :=
  closed_valueText_of_input h block input order fun _ _ => hrender _ _

theorem closed_bodyText_of_input (h : Closed P) (block : Block) (input : String)
    (hrender : ∀ child, block.input? input = some child → P (render child .chain)) :
    P (s.bodyText render block input) := by
  unfold bodyText
  split
  · exact h.pure _
  · rename_i child hchild
    refine h.bind (hrender child hchild) fun code => ?_
    cases code with
    | expression => exact h.throw _
    | statement => exact h.pure _

theorem closed_bodyText (h : Closed P) (hrender : ∀ id extent, P (render id extent)) (block : Block)
    (input : String) : P (s.bodyText render block input) :=
  closed_bodyText_of_input h block input fun _ _ => hrender _ _

theorem closed_itemTexts (h : Closed P) (block : Block) (input : String) (stop : ChainEnd)
    {items : List BlockId} (hrender : ∀ item ∈ items, P (render item .alone)) :
    P (s.itemTexts render block input stop items) := by
  induction items with
  | nil => exact h.bind (h.settleEnd _ _) fun _ => h.pure _
  | cons item rest ih =>
    refine h.bind (hrender item (List.mem_cons_self ..)) fun code => ?_
    cases code with
    | expression => exact h.throw _
    | statement =>
      exact h.bind (ih fun other hother => hrender other (List.mem_cons_of_mem _ hother)) fun _ => h.pure _

theorem closed_chainItems_of_mem (h : Closed P) (block : Block) (input : String)
    (hrender : ∀ item ∈ (s.workspace.chainFrom (block.input? input)).1, P (render item .alone)) :
    P (s.chainItems render block input) :=
  closed_itemTexts h block input _ hrender

theorem closed_chainItems (h : Closed P) (hrender : ∀ id extent, P (render id extent)) (block : Block)
    (input : String) : P (s.chainItems render block input) :=
  closed_chainItems_of_mem h block input fun _ _ => hrender _ _

theorem closed_valueOr (h : Closed P) (block : Block) (input : String) (order : Order)
    (placeholder : String) (hrender : ∀ child, block.input? input = some child → P (render child .chain)) :
    P (s.valueOr render block input order placeholder) :=
  h.bind (closed_valueText_of_input h block input order hrender) fun _ => h.pure _

theorem closed_argumentsText (h : Closed P) (block : Block)
    (hrender : ∀ params, block.next = some params → P (render params .alone)) :
    P (argumentsText render block) := by
  unfold argumentsText
  split
  · exact h.pure _
  · rename_i params hparams
    exact h.bind (hrender params hparams) fun _ => h.bind (h.consume _) fun _ => h.pure _

/-- A piece has a property that is closed, if what it reads has it: the block in its socket with its chain, each
of the items there, and the block after a call. -/
theorem closed_pieceText (h : Closed P) (id : BlockId) (block : Block) (piece : Piece)
    (hsocket : ∀ input, piece.input? = some input → ∀ child, block.input? input = some child →
      P (render child .chain))
    (hitems : ∀ input, piece.input? = some input → ∀ item ∈ (s.workspace.chainFrom (block.input? input)).1,
      P (render item .alone))
    (hnext : ∀ params, block.next = some params → P (render params .alone)) :
    P (s.pieceText render id block piece) := by
  cases piece with
  | text | field | quoted => exact h.pure _
  | value input => exact closed_valueOr h _ _ _ _ (hsocket input rfl)
  | body input => exact closed_bodyText_of_input h _ _ (hsocket input rfl)
  | list input | properties input =>
    exact h.bind (closed_chainItems_of_mem h _ _ (hitems input rfl)) fun _ => h.pure _
  | callee input => exact h.bind (closed_valueOr h _ _ _ _ (hsocket input rfl)) fun _ => h.pure _
  | arguments => exact closed_argumentsText h _ hnext
  | parameters input =>
    refine h.bind (h.takeConsumed id) fun consumed => ?_
    cases consumed with
    | true => exact h.pure _
    | false => exact h.bind (closed_chainItems_of_mem h _ _ (hitems input rfl)) fun _ => h.pure _
  | literal name =>
    rw [pieceText]
    split
    · exact h.throw _
    · exact h.pure _

theorem closed_piecesText (h : Closed P) (id : BlockId) (block : Block) {pieces : List Piece}
    (hpieces : ∀ piece ∈ pieces, P (s.pieceText render id block piece)) :
    P (s.piecesText render id block pieces) := by
  induction pieces with
  | nil => exact h.pure _
  | cons piece rest ih =>
    refine h.bind (hpieces piece (List.mem_cons_self ..)) fun _ => h.bind (ih ?_) fun _ => h.pure _
    exact fun other hother => hpieces other (List.mem_cons_of_mem _ hother)

/-- The code of a block has a property that is closed, if the blocks that it refers to have it. -/
theorem closed_blockCode (h : Closed P) (hrender : ∀ id extent, P (render id extent)) (id : BlockId)
    (block : Block) : P (s.blockCode render id block) := by
  refine h.bind (closed_piecesText h id block fun piece _ => ?_) fun _ => h.pure _
  exact closed_pieceText h id block piece (fun _ _ _ _ => hrender _ _) (fun _ _ _ _ => hrender _ _) fun _ _ =>
    hrender _ _

end Setting
end BlockProgram
