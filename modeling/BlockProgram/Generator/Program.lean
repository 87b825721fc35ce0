import BlockProgram.Generator.Traversal
import BlockProgram.Workspace.Canvas

/-!
The program of a workspace. All blocks on the canvas are rendered in reading order in one pass; their
texts are put under each other, every line is terminated, and the result is tidied. Custom types
without a text are refused before any block is rendered.
-/

namespace BlockProgram

/-- The custom type of a block, if it has no text. -/
def Generator.missingLiteral? (g : Generator) (block : Block) : Option String :=
  match block.kind with
  | .custom name => if (g.literal? name).isSome then none else some name
  | _ => none

namespace Setting

/-- The texts of blocks on the canvas, those without text left out. -/
def topTexts (s : Setting) : List BlockId → Run (List Text)
  | [] => return []
  | id :: rest => do
    let code ← s.renderBlock id .chain
    let texts ← topTexts s rest
    return if code.text.isEmpty then texts else code.text :: texts

/-- The program of the blocks on the canvas. -/
def canvasText (s : Setting) : Run Text := do
  let texts ← s.topTexts s.workspace.topBlocks
  return Text.tidy (Text.terminate (Text.unlines texts))

/-- The program of a workspace. -/
def program (s : Setting) : Except GenerateError Text :=
  match s.workspace.blocks.toList.findSome? s.generator.missingLiteral? with
  | some name => .error (.unknownCustomType name)
  | none => (s.canvasText {}).1

end Setting

/-- The program of a workspace. -/
def Generator.generate (g : Generator) (ws : Workspace) : Except GenerateError String :=
  (Setting.program ⟨ws, g⟩).map String.ofList

end BlockProgram
