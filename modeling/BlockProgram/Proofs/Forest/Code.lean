import BlockProgram.Generator.Program
import BlockProgram.Proofs.Forest.Basic

/-!
The code of a stack, by recursion over the stack and without any state. A block has its own code, for
which a call also takes the own code of the block after it; the text of a chain is made of the own codes
of its blocks. What the blocks after a call come to is left to a chain rule:

* `paired` leaves out the parameters of a call, and nothing else;
* `spent` says what becomes of every chain: to the blocks of a chain that come after a call the
  parameters at the end of the calls are spent, wherever they would be read.

The two agree on chains in which only parameters come after calls.
-/

namespace BlockProgram

/-- A block of a chain as it is read: its kind, and its own code given the text of its arguments. -/
structure Segment where
  kind : BlockKind
  code : Except GenerateError Text → Except GenerateError Code

/-- The text of the blocks after a block of a chain. -/
abbrev ChainRule := Segment → List Segment → Except GenerateError Text

namespace Segment

/-- The own code of the first block of a chain. A call takes its arguments from the own code of the
block after it. -/
def ownCode : List Segment → Except GenerateError Code
  | [] => return .statement []
  | first :: rest => first.code ((ownCode rest).map Code.text)

/-- The code of a chain: the own code of its first block with the text of the other blocks after it. -/
def chainCode (rule : ChainRule) (first : Segment) (rest : List Segment) :
    Except GenerateError Code := do
  let code ← ownCode (first :: rest)
  let after ← rule first rest
  return code.append after

/-- The own texts of the blocks after a block. The parameters of a call give no text, since the call has
taken it. -/
def paired : ChainRule
  | _, [] => return []
  | previous, next :: rest => do
    let text ←
      if previous.kind = .functionCall ∧ next.kind = .functionParams then pure []
      else (ownCode (next :: rest)).map Code.text
    let more ← paired next rest
    return text ++ more

/-! ### Chains in which a call leads to any block -/

/-- The own code of the first block of a chain when the parameters that it reads may be spent: those of
the block itself, or at the end of a run of calls that starts with it. -/
def spentCode (spent : Bool) : List Segment → Except GenerateError Code
  | [] => return .statement []
  | first :: rest =>
    if spent = true ∧ first.kind = .functionParams then return .statement []
    else first.code ((spentCode spent rest).map Code.text)

/-- The own texts of the blocks after a block; after a call, parameters are spent. -/
def spent : ChainRule
  | _, [] => return []
  | previous, next :: rest => do
    let text ← (spentCode (previous.kind = .functionCall) (next :: rest)).map Code.text
    let more ← spent next rest
    return text ++ more

/-- No parameters are spent unless a call comes before them. -/
theorem spentCode_false (segments : List Segment) : spentCode false segments = ownCode segments := by
  induction segments with
  | nil => rfl
  | cons first rest ih =>
    rw [spentCode, ownCode, ih, if_neg (by simp)]

end Segment

/-! ### Own code -/

namespace Block

variable (g : Generator) (rule : ChainRule) (plugged : String → List Segment) (block : Block)

/-- The expression in a value socket, in parentheses if it binds too loosely. -/
def valueText (input : String) (order : Order) : Except GenerateError Text :=
  match plugged input with
  | [] => return []
  | first :: rest => do
    match ← Segment.chainCode rule first rest with
    | .expression text childOrder =>
      return if !text.isEmpty && childOrder.needsParens order then Text.parenthesize text else text
    | .statement _ => throw (.expectedValue block.id input first.kind.typeName)

/-- The expression in a value socket, or the placeholder when it has no text. -/
def valueOr (input : String) (order : Order) (placeholder : String) : Except GenerateError Text := do
  let text ← block.valueText rule plugged input order
  return if text.isEmpty then placeholder.toList else text

/-- The statements in a socket, indented. -/
def bodyText (input : String) : Except GenerateError Text :=
  match plugged input with
  | [] => return []
  | first :: rest => do
    match ← Segment.chainCode rule first rest with
    | .statement text => return Text.indentLines g.indent text
    | .expression .. => throw (.expectedStatement block.id input first.kind.typeName)

/-- The own texts of the blocks of a chain in a socket. -/
def itemTexts (input : String) : List Segment → Except GenerateError (List Text)
  | [] => return []
  | item :: rest => do
    match ← Segment.ownCode (item :: rest) with
    | .statement text =>
      let texts ← itemTexts input rest
      return text :: texts
    | .expression .. => throw (.expectedStatement block.id input item.kind.typeName)

/-- The text of one piece of a block. -/
def pieceText (arguments : Except GenerateError Text) : Piece → Except GenerateError Text
  | .text text => return text.toList
  | .field name missing => return ((block.field? name).getD missing).toList
  | .quoted name => return Text.quote ((block.field? name).getD "").toList
  | .value input order placeholder => block.valueOr rule plugged input order placeholder
  | .body input => block.bodyText g rule plugged input
  | .list input => do
    let items ← block.itemTexts input (plugged input)
    return Text.commaSeparated items
  | .properties input => do
    let items ← block.itemTexts input (plugged input)
    return Text.braced items
  | .callee input order placeholder => do
    let text ← block.valueOr rule plugged input order placeholder
    return Text.bareCallee text
  | .arguments => arguments
  | .parameters input => do
    let items ← block.itemTexts input (plugged input)
    return Text.commaSeparated items
  | .literal name =>
    match g.literal? name with
    | none => throw (.unknownCustomType name)
    | some text => return text.toList

/-- The texts of pieces, joined. -/
def piecesText (arguments : Except GenerateError Text) : List Piece → Except GenerateError Text
  | [] => return []
  | piece :: rest => do
    let text ← block.pieceText g rule plugged arguments piece
    let more ← piecesText arguments rest
    return text ++ more

/-- The own code of a block, given what is plugged into it and the text of its arguments. -/
def code (arguments : Except GenerateError Text) : Except GenerateError Code := do
  let text ← block.piecesText g rule plugged arguments block.kind.template.pieces
  return .ofShape text block.kind.template.shape

/-- The own code of a block has the shape of its template. -/
theorem code_shape {g : Generator} {rule : ChainRule} {plugged : String → List Segment} {block : Block}
    {arguments : Except GenerateError Text} {code : Code}
    (h : block.code g rule plugged arguments = .ok code) :
    ∃ text, code = .ofShape text block.kind.template.shape := by
  rw [Block.code] at h
  cases htext : block.piecesText g rule plugged arguments block.kind.template.pieces with
  | error e =>
    rw [htext] at h
    cases h
  | ok text =>
    rw [htext] at h
    cases h
    exact ⟨text, rfl⟩

end Block

/-! ### Stacks -/

/-- The blocks of a stack as they are read. -/
def Stack.segments (g : Generator) (rule : ChainRule) (stack : Stack) : List Segment :=
  stack.read fun _ block plugged => ⟨block.kind, block.code g rule plugged⟩

/-- The blocks of what is plugged into an input. -/
def Sockets.segments (g : Generator) (rule : ChainRule) (sockets : Sockets) :
    String → List Segment :=
  sockets.read fun _ block plugged => ⟨block.kind, block.code g rule plugged⟩

@[simp]
theorem Stack.segments_nil (g : Generator) (rule : ChainRule) : Stack.nil.segments g rule = [] := by
  rw [segments, read]

@[simp]
theorem Stack.segments_cons (g : Generator) (rule : ChainRule) (id : BlockId) (block : Block)
    (sockets : Sockets) (rest : Stack) :
    (Stack.cons id block sockets rest).segments g rule =
      ⟨block.kind, block.code g rule (sockets.segments g rule)⟩ :: rest.segments g rule := by
  rw [segments, read]
  rfl

theorem Sockets.segments_eq (g : Generator) (rule : ChainRule) (sockets : Sockets) (input : String) :
    sockets.segments g rule input = (sockets.find input).segments g rule :=
  sockets.read_eq _ input

/-- The text of a stack. -/
def Stack.text (g : Generator) (rule : ChainRule) (stack : Stack) : Except GenerateError Text :=
  match stack.segments g rule with
  | [] => return []
  | first :: rest => (Segment.chainCode rule first rest).map Code.text

/-- The texts of stacks, those without text left out. -/
def Stack.texts (g : Generator) (rule : ChainRule) : List Stack → Except GenerateError (List Text)
  | [] => return []
  | stack :: rest => do
    let text ← stack.text g rule
    let texts ← texts g rule rest
    return if text.isEmpty then texts else text :: texts

/-- The program of the stacks on the canvas. -/
def Stack.program (g : Generator) (rule : ChainRule) (forest : List Stack) :
    Except GenerateError Text := do
  let texts ← Stack.texts g rule forest
  return Text.tidy (Text.terminate (Text.unlines texts))

end BlockProgram
