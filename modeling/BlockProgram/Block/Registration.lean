import BlockProgram.Text.Blank

/-!
Registering type names. A name that is blank or already taken is refused, by every table of types.
-/

namespace BlockProgram

/-- Why a type name was refused. -/
inductive RegistrationError where
  | duplicateType (name : String)
  | emptyTypeName
  deriving DecidableEq, Repr

namespace RegistrationError

def message : RegistrationError → String
  | duplicateType name => "Block type '" ++ name ++ "' is already registered."
  | emptyTypeName => "Block type name must not be empty."

end RegistrationError

/-- Whether a type name holds nothing but white space. -/
def isBlankName (name : String) : Bool :=
  Text.isBlank name.toList

end BlockProgram
