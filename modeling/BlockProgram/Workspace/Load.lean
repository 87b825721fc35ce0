import BlockProgram.Json.Reader
import BlockProgram.Workspace.Document

/-!
Loading a saved workspace. The forest of a document becomes a workspace: blocks are created in the
order of their nodes, each before what is plugged into its inputs and that before the rest of its
chain.

A node must have a type, and no id may be given twice. The first node at fault ends the load, and its
error tells through which inputs it was reached.
-/

namespace BlockProgram

/-- What is wrong with a node. -/
inductive NodeFault where
  | missingType
  | duplicateId (id : String)
  deriving DecidableEq, Repr

/-- An input on the way to a node. -/
structure InputStep where
  input : String
  typeName : String
  deriving DecidableEq, Repr

/-- Why a workspace could not be loaded. -/
inductive LoadError where
  /-- The text is not JSON. -/
  | notJson
  /-- There is no list of top-level blocks. -/
  | noBlockList
  /-- A node is at fault; the path leads to it from the canvas, the outermost input first. -/
  | node (path : List InputStep) (fault : NodeFault)
  deriving DecidableEq, Repr

def NodeFault.message : NodeFault → String
  | missingType => "Block is missing its 'type'."
  | duplicateId id => "Duplicate block id '" ++ id ++ "'."

def InputStep.message (step : InputStep) : String :=
  "In input '" ++ step.input ++ "' of a '" ++ step.typeName ++ "' block."

namespace LoadError

/-- The texts of an error, the outermost first. -/
def messages : LoadError → List String
  | notJson => ["Invalid workspace JSON."]
  | noBlockList => ["Invalid workspace JSON: 'blocks.blocks' must be an array."]
  | node path fault => path.map InputStep.message ++ [fault.message]

/-- The same error, reached through one more input. -/
def within (step : InputStep) : LoadError → LoadError
  | node path fault => node (step :: path) fault
  | error => error

end LoadError

/-- A workspace under construction and the ids given so far. -/
structure Loading where
  workspace : Workspace := .empty
  seen : List String := []

/-- A step of a load. -/
abbrev Loader (α : Type) := StateT Loading (Except LoadError) α

namespace Loader

/-- Changes the workspace. -/
def change (f : Workspace → Workspace) : Loader Unit :=
  modify fun loading => { loading with workspace := f loading.workspace }

/-- Runs a step for what is plugged into an input. -/
def within {α : Type} (step : InputStep) (body : Loader α) : Loader α :=
  fun loading => (body loading).mapError (LoadError.within step)

/-- Creates a block. -/
def create (kind : BlockKind) : Loader BlockId :=
  modifyGet fun loading =>
    let (id, workspace) := loading.workspace.addBlock kind
    (id, { loading with workspace })

/-- Gives a block the id of its node. -/
def identify (id : BlockId) : Option String → Loader Unit
  | none => pure ()
  | some given => do
    if given ∈ (← get).seen then throw (.node [] (.duplicateId given))
    modify fun loading => { loading with seen := given :: loading.seen }
    change fun ws => ws.modify id fun block => { block with id := given }

/-- Gives a block the fields of its node. -/
def setFields (id : BlockId) (fields : List (String × String)) : Loader Unit :=
  change fun ws => fields.foldl (fun ws entry => ws.setField id entry.1 entry.2) ws

/-- Creates the block of a node, without its inputs. -/
def block (label : NodeLabel) : Loader (BlockId × String) :=
  match label.type? with
  | none => throw (.node [] .missingType)
  | some typeName => do
    let id ← create (.ofTypeName typeName)
    identify id label.id?
    setFields id label.fields
    return (id, typeName)

end Loader

mutual

/-- Loads a node with its inputs. -/
def Node.load : Node → Loader BlockId
  | .mk label inputs => do
    let (id, typeName) ← Loader.block label
    inputs.load id typeName
    return id

/-- Loads a chain and gives its first block. -/
def Chain.load : Chain → Loader BlockId
  | .last node => node.load
  | .link node rest => do
    let id ← node.load
    let next ← rest.load
    Loader.change fun ws => ws.connectNext id next
    return id

/-- Loads the inputs of a block. -/
def Inputs.load (parent : BlockId) (typeName : String) : Inputs → Loader Unit
  | .nil => pure ()
  | .cons name chain rest => do
    let child ← Loader.within ⟨name, typeName⟩ chain.load
    Loader.change fun ws => ws.connectInput parent name child
    rest.load parent typeName

end

/-- Loads a chain and puts its first block on the canvas. -/
def Entry.load (entry : Entry) : Loader Unit := do
  let id ← entry.chain.load
  Loader.change fun ws => ws.place id entry.position

/-- The workspace of a document. -/
def Document.load (document : Document) : Except LoadError Workspace := do
  let (_, loading) ← (document.entries.forM Entry.load).run {}
  return loading.workspace

namespace Workspace

/-- The workspace that a JSON value describes. -/
def ofJson (value : Json) : Except LoadError Workspace :=
  match Document.ofJson? value with
  | none => .error .noBlockList
  | some document => document.load

/-- The workspace that a text describes. -/
def parse (source : String) : Except LoadError Workspace :=
  match Json.parse? source with
  | none => .error .notJson
  | some value => ofJson value

end Workspace
end BlockProgram
