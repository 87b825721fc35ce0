import BlockProgram.Markup.Encoding
import BlockProgram.Markup.Name

/-!
The declaration at the start of a document: its version, then its encoding if it has one, then whether it
stands alone if it says so, each as a name, an equals sign and a value. White space separates them.

The first letter of each name shows which of them follows; only the rest of it is read as a name, and of
that the prefix does not matter.
-/

namespace BlockProgram
namespace Markup

/-- The parts of a declaration. -/
inductive Declaration.Part where
  | version
  | encoding
  | standalone
  deriving DecidableEq, Repr

/-- Where the reader of a declaration is. -/
inductive Declaration.Place where
  /-- Where a part may begin that is not earlier than this one. -/
  | before (part : Declaration.Part)
  /-- In the name of a part, after its first letter. -/
  | name (part : Declaration.Part) (word : Text)
  /-- Before the equals sign. -/
  | equals (part : Declaration.Part)
  /-- After the equals sign. -/
  | value (part : Declaration.Part)
  /-- After the value. -/
  | after (part : Declaration.Part)
  | finished
  deriving DecidableEq, Repr

/-- What a declaration says. -/
structure Declaration where
  version : Version := .first
  label? : Option String := none
  deriving DecidableEq, Repr

namespace Declaration

namespace Part

/-- The first letter of a part's name. -/
def initial : Part → Char
  | .version => 'v'
  | .encoding => 'e'
  | .standalone => 's'

/-- The name of a part without its first letter. -/
def rest : Part → String
  | .version => "ersion"
  | .encoding => "ncoding"
  | .standalone => "tandalone"

/-- The parts that may begin where this one may. -/
def choices : Part → List Part
  | .version => [.version]
  | .encoding => [.encoding, .standalone]
  | .standalone => [.standalone]

/-- Whether a declaration may end where this part may begin. -/
def isOptional (part : Part) : Bool :=
  part ≠ .version

end Part

namespace Place

/-- One token where a part may begin. -/
def stepBefore (part : Part) (t : Token) : Option Place :=
  match t with
  | .char c =>
    if isSpace c then some (.before part)
    else (part.choices.find? fun part => part.initial = c).map fun part => .name part []
  | .instructionEnd => if part.isOptional then some .finished else none
  | _ => none

/-- One token of the name of a part. -/
def stepName (part : Part) (word : Text) (t : Token) : Option Place :=
  let finish (place : Place) : Option Place :=
    (qname? word).bind fun name => if name.name = part.rest then some place else none
  match t with
  | .equals => finish (.value part)
  | .char c =>
    if isSpace c then finish (.equals part) else (extendQName? word c).map (.name part)
  | _ => none

/-- One token before the equals sign. -/
def stepEquals (part : Part) (t : Token) : Option Place :=
  match t with
  | .equals => some (.value part)
  | .char c => if isSpace c then some (.equals part) else none
  | _ => none

/-- One token after the value of a part. -/
def stepAfter (part : Part) (t : Token) : Option Place :=
  match t with
  | .instructionEnd => some .finished
  | .char c =>
    if isSpace c then
      match part with
      | .version => some (.before .encoding)
      | .encoding => some (.before .standalone)
      | .standalone => some (.after .standalone)
    else none
  | _ => none

/-- One token outside a value. -/
def step (place : Place) (t : Token) : Option Place :=
  match place with
  | .before part => stepBefore part t
  | .name part word => stepName part word t
  | .equals part => stepEquals part t
  | .value _ => none
  | .after part => stepAfter part t
  | .finished => none

end Place

/-- The declaration with the value of a part. -/
def set? (declaration : Declaration) (part : Part) (value : String) : Option Declaration :=
  match part with
  | .version =>
    if value = "1.0" then some { declaration with version := .first }
    else if value = "1.1" then some { declaration with version := .second }
    else none
  | .encoding => some { declaration with label? := some value }
  | .standalone => if value = "yes" ∨ value = "no" then some declaration else none

/-- The encoding after a declaration. UTF-8 may be changed to any encoding of single bytes, unless the
document starts with a mark that confirms it. -/
def encoding? (declaration : Declaration) (marked : Bool) : Option Encoding :=
  match declaration.label? with
  | none => some .utf8
  | some label =>
    (Encoding.ofLabel? label).bind fun encoding =>
      if encoding = .utf16 ∨ (marked ∧ encoding ≠ .utf8) then none else some encoding

end Declaration
end Markup
end BlockProgram
