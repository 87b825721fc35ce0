import BlockProgram.Command.Arguments
import BlockProgram.Command.Machine
import BlockProgram.Host.Basic
import BlockProgram.Toolbox

/-!
The command: it reads a saved workspace, generates its program and writes what it was asked for. The
program is complete before anything is written, and files are written one after the other: the
definitions, the toolbox, then the program. Without an output path the program is printed. No file is
ever half written: its text is complete in a draft before it takes its place, and a draft that does not
get there is removed.
-/

namespace BlockProgram

/-- Why the command failed. -/
inductive CommandError where
  | inputNotFound (path : String)
  /-- The input cannot be read as text. -/
  | unreadable (path : String)
  | load (path : String) (error : LoadError)
  /-- A custom literal without its three parts. -/
  | badLiteral (text : String)
  | registration (error : RegistrationError)
  | generate (error : GenerateError)
  /-- The directory of an output cannot be created. -/
  | noDirectory (path : String)
  /-- A directory cannot take a new file. -/
  | noDraft (directory : String)
  /-- The draft of an output cannot take its text. -/
  | notFilled (path : String)
  /-- The draft of an output cannot take its place. -/
  | notWritten (path : String)
  deriving DecidableEq, Repr

namespace CommandError

/-- The texts of an error, the outermost first. The machine's own text is none of them. -/
def messages : CommandError → List String
  | inputNotFound path => ["Input file not found: '" ++ path ++ "'."]
  | unreadable path => ["Failed to read '" ++ path ++ "'."]
  | load path error => ("Failed to load workspace '" ++ path ++ "'.") :: error.messages
  | badLiteral text => ["Invalid --literal '" ++ text ++ "': expected TYPE:LABEL:VALUE."]
  | registration error => [error.message]
  | generate error => [error.message]
  | noDirectory _ | notFilled _ => []
  | noDraft directory => ["Failed to create a temporary file in '" ++ directory ++ "'."]
  | notWritten path => ["Failed to write '" ++ path ++ "'"]

end CommandError

/-! ### Stages -/

/-- What the command is doing. -/
inductive Stage where
  | resolving
  | reading
  | registering
  | generating
  | writingBlocks
  | writingToolbox
  | writingOutput
  deriving DecidableEq, Repr

def Stage.label : Stage → String
  | resolving => "Resolving input path"
  | reading => "Reading workspace"
  | registering => "Registering blocks"
  | generating => "Generating Hexput"
  | writingBlocks => "Writing block definitions"
  | writingToolbox => "Writing toolbox"
  | writingOutput => "Writing Hexput source"

/-- The stages that arguments ask for, in order. -/
def Arguments.stages (args : Arguments) : List Stage :=
  [.resolving, .reading, .registering, .generating] ++
    (if args.blocks?.isSome then [.writingBlocks] else []) ++
    (if args.toolbox?.isSome then [.writingToolbox] else []) ++
    (if args.output?.isSome then [.writingOutput] else [])

/-- A bar that is filled in proportion to `step` out of `total`, rounded to the nearest. -/
def progressBar (step total width : Nat) : String :=
  let filled := (step * width + total / 2) / total
  "[" ++ String.ofList (List.replicate filled '=' ++ List.replicate (width - filled) '-') ++ "]"

/-- The line that announces a stage. -/
def progressLine (args : Arguments) (stage : Stage) : String :=
  let total := args.stages.length
  let step := args.stages.idxOf stage + 1
  "[Generate] " ++ stage.label ++ "... (" ++ toString step ++ "/" ++ toString total ++ ") " ++
    progressBar step total 14 ++ "\n"

/-! ### Literals -/

/-- The type, label and value of a custom literal: its parts around the first two colons, of which the
first is not empty. -/
def literalParts? (text : String) : Option (String × String × String) :=
  let chars := text.toList
  let typeName := chars.takeWhile (· ≠ ':')
  match chars.dropWhile (· ≠ ':') with
  | [] => none
  | _ :: rest =>
    match rest.dropWhile (· ≠ ':') with
    | [] => none
    | _ :: value =>
      if typeName.isEmpty then none
      else
        some (String.ofList typeName, String.ofList (rest.takeWhile (· ≠ ':')), String.ofList value)

/-- Adds custom literals to a host one after the other. -/
def Host.addLiterals (host : Host) : List String → Except CommandError Host
  | [] => .ok host
  | text :: rest =>
    match literalParts? text with
    | none => .error (.badLiteral text)
    | some (typeName, label, value) => do
      let host ← (accepted (host.addLiteral typeName label value)).mapError .registration
      host.addLiterals rest

/-- The host that arguments ask for. -/
def Arguments.host (args : Arguments) : Except CommandError Host := do
  let host ← (Host.accepted
    (Host.withIndent (List.replicate args.indent ' ')).defineBuiltins).mapError .registration
  host.addLiterals args.literals

/-! ### Outputs -/

/-- A file that is to be written. -/
structure Output where
  stage : Stage
  target : String
  text : String
  deriving DecidableEq, Repr

/-- The files that arguments ask for, in the order in which they are written. -/
def Arguments.outputs (args : Arguments) (host : Host) (code : String) : List Output :=
  (args.blocks?.map fun target => ⟨.writingBlocks, target, Json.pretty host.registry.toJson⟩).toList ++
    (args.toolbox?.map fun target => ⟨.writingToolbox, target, Toolbox.text host.registry⟩).toList ++
    (args.output?.map fun target => ⟨.writingOutput, target, code⟩).toList

/-! ### Running -/

namespace Command

variable {m : Type → Type} [Monad m] [Machine m]

/-- A step of the command. -/
abbrev Action (m : Type → Type) := ExceptT CommandError m

/-- Announces a stage. -/
def announce (args : Arguments) (stage : Stage) : Action m Unit :=
  ExceptT.lift (Machine.report (progressLine args stage))

/-- Finds the input and gives its canonical path. -/
def locate (args : Arguments) : Action m String := do
  match ← ExceptT.lift (Machine.locate (.parse args.input)) with
  | none => throw (.inputNotFound args.input)
  | some canonical => return canonical

/-- Reads the workspace. -/
def load (path : PathName) (canonical : String) : Action m Workspace := do
  match ← ExceptT.lift (Machine.read path) with
  | none => throw (.unreadable canonical)
  | some source => liftExcept ((Workspace.parse source).mapError (.load canonical))
where
  liftExcept {α : Type} : Except CommandError α → Action m α
    | .ok a => pure a
    | .error e => throw e

/-- Creates the directory that holds what a path names. -/
def makeRoom (target : String) (path : PathName) : Action m Unit :=
  match path.directory? with
  | none => pure ()
  | some directory => do
    if ← ExceptT.lift (Machine.makeDirectory directory) then return
    else throw (.noDirectory target)

/-- Creates the draft of a file. -/
def createDraft (path : PathName) : Action m (Machine.Draft m) := do
  match ← ExceptT.lift (Machine.createDraft path.directory) with
  | none => throw (.noDraft path.directory.text)
  | some draft => return draft

/-- Does something with a draft. If that fails, the draft is removed. -/
def attempt (draft : Machine.Draft m) (step : m Bool) (error : CommandError) : Action m Unit := do
  if ← ExceptT.lift step then return
  else
    ExceptT.lift (Machine.removeDraft draft)
    throw error

/-- Writes a whole file, with the directories around it. -/
def write (target text : String) : Action m Unit := do
  let path := PathName.parse target
  makeRoom target path
  let draft ← createDraft path
  attempt draft (Machine.fillDraft draft text) (.notFilled target)
  attempt draft (Machine.moveDraft draft path) (.notWritten target)

/-- Writes files one after the other. -/
def writeAll (args : Arguments) : List Output → Action m Unit
  | [] => pure ()
  | output :: rest => do
    announce args output.stage
    write output.target output.text
    writeAll args rest

/-- Writes what the arguments ask for. -/
def emit (args : Arguments) (host : Host) (code : String) : Action m Unit := do
  writeAll args (args.outputs host code)
  if args.output?.isNone then ExceptT.lift (Machine.print code)

/-- Reads the workspace and generates its program, and gives the host as well. -/
def prepare (args : Arguments) : Action m (Host × String) := do
  announce args .resolving
  let canonical ← locate args
  announce args .reading
  let ws ← load (.parse args.input) canonical
  announce args .registering
  let host ← load.liftExcept args.host
  announce args .generating
  let code ← load.liftExcept ((host.boundGenerator.generate ws).mapError .generate)
  return (host, code)

/-- Runs the command. -/
def run (args : Arguments) : Action m Unit := do
  let (host, code) ← prepare args
  emit args host code

end Command
end BlockProgram
