import BlockProgram.Block.Registration
import BlockProgram.Json.Printer
import BlockProgram.Schema.Builtin

/-!
The block types of one editor, in the order of their registration. A type is registered once.
-/

namespace BlockProgram

/-- The registered block types. -/
structure Registry where
  schemas : List BlockSchema := []
  deriving DecidableEq, Repr

namespace Registry

def get? (r : Registry) (typeName : String) : Option BlockSchema :=
  r.schemas.find? fun schema => schema.typeName = typeName

def contains (r : Registry) (typeName : String) : Bool :=
  (r.get? typeName).isSome

def typeNames (r : Registry) : List String :=
  r.schemas.map BlockSchema.typeName

/-- The registry with one more type at its end. -/
def register (r : Registry) (schema : BlockSchema) : Except RegistrationError Registry :=
  if isBlankName schema.typeName then .error .emptyTypeName
  else if r.contains schema.typeName then .error (.duplicateType schema.typeName)
  else .ok ⟨r.schemas ++ [schema]⟩

/-- Registers the shapes of kinds one after the other. The first refusal ends this; the types before
it stay registered. -/
def registerKinds (r : Registry) : List BlockKind → Registry × Except RegistrationError Unit
  | [] => (r, .ok ())
  | kind :: rest =>
    match r.register (.ofKind kind) with
    | .error e => (r, .error e)
    | .ok r => r.registerKinds rest

/-- Registers the builtin types. -/
def registerBuiltins (r : Registry) : Registry × Except RegistrationError Unit :=
  r.registerKinds BlockKind.builtins

/-- The definitions of all types. -/
def toJson (r : Registry) : Json :=
  Json.sortMembers (.array (r.schemas.map BlockSchema.toJson))

end Registry
end BlockProgram
