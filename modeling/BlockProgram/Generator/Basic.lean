import BlockProgram.Block.Registration
import BlockProgram.Block.Template
import BlockProgram.Table
import BlockProgram.Text.Blank
import BlockProgram.Workspace.Basic

/-!
A generator: the indent of statement bodies and the texts of the custom literals. It holds nothing
about a workspace, so one generator serves any number of them.
-/

namespace BlockProgram

/-- The code of a block: an expression and how tightly it binds, or statements. -/
inductive Code where
  | expression (text : Text) (order : Order)
  | statement (text : Text)
  deriving DecidableEq, Repr

namespace Code

def text : Code → Text
  | expression text _ => text
  | statement text => text

/-- The code of a given shape and text. -/
def ofShape (text : Text) : CodeShape → Code
  | .expression order => expression text order
  | .statement => statement text

/-- The code with more text after it. -/
def append (code : Code) (more : Text) : Code :=
  match code with
  | expression text order => expression (text ++ more) order
  | statement text => statement (text ++ more)

end Code

/-- Why a workspace has no code. -/
inductive GenerateError where
  /-- A link leads to a block that does not exist. -/
  | missingBlock (id : BlockId)
  /-- A block is reached again from inside itself or from a later block of its chain. -/
  | cycle (id typeName : String)
  /-- A value socket holds a statement. -/
  | expectedValue (id input childType : String)
  /-- A statement socket holds an expression. -/
  | expectedStatement (id input childType : String)
  /-- A custom type has no literal. -/
  | unknownCustomType (name : String)
  deriving DecidableEq, Repr

namespace GenerateError

def message : GenerateError → String
  | missingBlock id =>
    "Block 'BlockId(" ++ toString id.index ++ ")' does not exist in this workspace."
  | cycle id typeName =>
    "Block '" ++ id ++ "' (" ++ typeName ++ ") is reached again while it is still being rendered."
  | expectedValue id input childType =>
    "Input '" ++ input ++ "' of block '" ++ id ++ "' expects a value block, found statement block '" ++
      childType ++ "'."
  | expectedStatement id input childType =>
    "Input '" ++ input ++ "' of block '" ++ id ++ "' expects a statement block, found value block '" ++
      childType ++ "'."
  | unknownCustomType name => "No generator registered for custom block type '" ++ name ++ "'."

/-- The error for a block that is reached again. -/
def ofRepeated (block : Block) : GenerateError :=
  cycle block.id block.kind.typeName

end GenerateError

/-- What blocks are rendered with. -/
structure Generator where
  indent : Text := [' ', ' ']
  literals : Table String := []
  deriving DecidableEq, Repr

namespace Generator

/-- The name of the generated language. -/
def languageName : String := "Hexput"

/-- The text of a custom literal. -/
def literal? (g : Generator) (name : String) : Option String :=
  Table.find? name g.literals

/-- Gives a custom type its text. Builtin names and names with a text are refused. -/
def registerLiteral (g : Generator) (name value : String) : Except RegistrationError Generator :=
  if isBlankName name then .error .emptyTypeName
  else if (BlockKind.ofTypeName name).isBuiltin || (g.literal? name).isSome then
    .error (.duplicateType name)
  else .ok { g with literals := Table.insert name value g.literals }

end Generator
end BlockProgram
