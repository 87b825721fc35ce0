import BlockProgram.Generator.Program
import BlockProgram.Schema.Registry
import BlockProgram.Workspace.Load

/-!
A host: the block types of one editor and the generator bound to it, if there is one yet. Hosts are
values; nothing is shared between two of them.

Defining the builtin types a second time does nothing, and a custom literal is added to both tables
under one name.
-/

namespace BlockProgram

/-- The registered block types and the bound generator. -/
structure Host where
  registry : Registry := {}
  generator : Option Generator := none
  deriving DecidableEq, Repr

/-- Why an operation of a host failed. -/
inductive HostError where
  | registration (error : RegistrationError)
  | load (error : LoadError)
  | generate (error : GenerateError)
  /-- No generator is bound. -/
  | noGenerator
  /-- The bound generator has no text for a registered type. -/
  | noRoutine (typeName : String)
  /-- The page refused to mount an editor; the texts are its own. -/
  | environment (texts : List String)
  deriving DecidableEq, Repr

namespace HostError

/-- The texts of an error, the outermost first. -/
def messages : HostError → List String
  | registration error => [error.message]
  | load error => error.messages
  | generate error => [error.message]
  | noGenerator => ["No " ++ Generator.languageName ++ " generator bound to this host."]
  | noRoutine typeName =>
    ["Block type '" ++ typeName ++ "' has no " ++ Generator.languageName ++ " generator routine."]
  | environment texts => texts

end HostError

/-- Adds a custom literal to a registry and a generator, which need not belong to one host. The tables
are given back as they are at the end, also when a step was refused. -/
def addCustomLiteral (registry : Registry) (generator : Generator) (typeName label value : String) :
    Except RegistrationError String × Registry × Generator :=
  if registry.contains typeName then (.error (.duplicateType typeName), registry, generator)
  else
    match generator.registerLiteral typeName value with
    | .error e => (.error e, registry, generator)
    | .ok generator =>
      match registry.register (.customLiteral typeName label) with
      | .error e => (.error e, registry, generator)
      | .ok registry => (.ok typeName, registry, generator)

namespace Host

/-- A host whose generator is bound with an indent. -/
def withIndent (indent : Text) : Host :=
  { generator := some { indent } }

/-- The type whose presence tells that the builtin types are defined. -/
def marker : BlockKind := .variableDeclaration

/-- Registers the builtin types unless they are registered. -/
def defineBuiltins (host : Host) : Host × Except RegistrationError Unit :=
  if host.registry.contains marker.typeName then (host, .ok ())
  else
    let (registry, result) := host.registry.registerBuiltins
    ({ host with registry }, result)

/-- The bound generator, or the one that would be bound. -/
def boundGenerator (host : Host) : Generator :=
  host.generator.getD {}

/-- The host with a generator bound to it. -/
def bind (host : Host) : Host :=
  { host with generator := some host.boundGenerator }

/-- Gives a custom type its text in the generator alone. -/
def registerLiteral (host : Host) (typeName value : String) :
    Host × Except RegistrationError Unit :=
  match host.boundGenerator.registerLiteral typeName value with
  | .error e => (host.bind, .error e)
  | .ok generator => ({ host with generator := some generator }, .ok ())

/-- Adds a custom literal to the registry and the generator of a host. -/
def addLiteral (host : Host) (typeName label value : String) :
    Host × Except RegistrationError String :=
  let (result, registry, generator) :=
    addCustomLiteral host.registry host.boundGenerator typeName label value
  (⟨registry, some generator⟩, result)

/-- The host after an operation that was not refused. -/
def accepted {α : Type} : Host × Except RegistrationError α → Except RegistrationError Host
  | (_, .error e) => .error e
  | (host, .ok _) => .ok host

/-- Whether a generator can render a type. -/
def covers (generator : Generator) (typeName : String) : Bool :=
  (BlockKind.ofTypeName typeName).isBuiltin || (generator.literal? typeName).isSome

/-- Checks that the bound generator can render every registered type. -/
def checkCoverage (host : Host) : Except HostError Unit :=
  match host.generator with
  | none => .error .noGenerator
  | some generator =>
    match host.registry.typeNames.find? fun typeName => !covers generator typeName with
    | some typeName => .error (.noRoutine typeName)
    | none => .ok ()

/-- The program of a saved workspace. A generator is bound once the workspace is loaded. -/
def generate (host : Host) (source : String) : Host × Except HostError String :=
  match Workspace.parse source with
  | .error e => (host, .error (.load e))
  | .ok ws => (host.bind, (host.boundGenerator.generate ws).mapError .generate)

/-- The definitions of all types, the builtin ones included, as JSON text. -/
def definitions (host : Host) : Host × Except RegistrationError String :=
  let (host, result) := host.defineBuiltins
  (host, result.map fun _ => Json.compact host.registry.toJson)

end Host
end BlockProgram
