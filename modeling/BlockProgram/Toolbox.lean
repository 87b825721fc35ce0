import BlockProgram.Markup.Printer
import BlockProgram.Markup.Reader
import BlockProgram.Schema.Registry

/-!
Toolboxes: markup that offers block types, grouped by category. The default toolbox of a registry
offers every registered type once, the categories in their fixed order and the types of one category
in the order of their registration; a category takes the colour of its first type.
-/

namespace BlockProgram

/-- Why a toolbox could not be read. -/
structure InvalidToolbox where
  deriving DecidableEq, Repr

def InvalidToolbox.message (_ : InvalidToolbox) : String :=
  "Invalid toolbox XML"

namespace Toolbox

/-- The toolbox that offers nothing. -/
def emptyText : String := "<xml></xml>"

/-! ### The default toolbox -/

/-- The element that offers a block type. -/
def blockElement (schema : BlockSchema) : Element :=
  .mk "block" [("type", schema.typeName)] []

/-- The element of a category with some types, none when there are none. -/
def categoryElement? (category : Category) (schemas : List BlockSchema) : Option Element :=
  schemas.head?.map fun first =>
    .mk "category" [("colour", toString first.colour.toNat), ("name", category.label)]
      (schemas.map blockElement)

/-- The types of a category. -/
def schemasOf (r : Registry) (category : Category) : List BlockSchema :=
  r.schemas.filter fun schema => schema.category = category

/-- The default toolbox as an element. -/
def element (r : Registry) : Element :=
  .mk "xml" [("id", "toolbox"), ("style", "display: none")]
    (Category.all.filterMap fun category => categoryElement? category (schemasOf r category))

/-- The default toolbox. -/
def text (r : Registry) : String :=
  Markup.write (element r)

/-! ### The types in a toolbox -/

mutual

/-- The types that an element and those in it offer, in the order of the document. -/
def offered : Element → List String
  | .mk name attributes children =>
    (if name = "block" then (attributes.lookup "type").toList else []) ++ offeredAll children

def offeredAll : List Element → List String
  | [] => []
  | element :: rest => offered element ++ offeredAll rest

end

/-- The block types that a toolbox offers. -/
def blockTypes (source : String) : Except InvalidToolbox (List String) :=
  match Markup.parse? source with
  | none => .error {}
  | some root => .ok (offered root)

end Toolbox
end BlockProgram
