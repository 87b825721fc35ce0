import BlockProgram.Markup.Name

/-!
How elements lie in one another. Opening and closing tags must match. A prefix must be bound by an
`xmlns` attribute of its element or of one around it; the attributes that bind prefixes are not kept, and
of all other names the prefixes are dropped.

A document may hold several elements side by side; the first one is its root.
-/

namespace BlockProgram
namespace Markup

/-! ### Prefixes -/

def xmlSpace : String := "http://www.w3.org/XML/1998/namespace"

def xmlnsSpace : String := "http://www.w3.org/2000/xmlns/"

/-- The prefixes that are bound everywhere. -/
def alwaysBound : List String := ["", "xml", "xmlns"]

/-- Whether an attribute binds a prefix. -/
def isBinding (name : QName) : Bool :=
  name.space = "xmlns" || (name.space = "" && name.name = "xmlns")

/-- The prefix that an attribute binds; `none` if it may not be bound to this value. The default is
bound from the start and may be bound to anything but the two reserved spaces. -/
def binding? (name : QName) (value : String) : Option String :=
  if name.space = "xmlns" then
    if name.name = "xmlns" || value.isEmpty || (name.name = "xml" && value ≠ xmlSpace) then none
    else some name.name
  else if ["xml", "xmlns", xmlSpace, xmlnsSpace].contains value then none
  else some ""

/-! ### Tags -/

/-- The opening tag of an element, its attributes reversed, and the prefixes that it binds. -/
structure Tag where
  name : QName
  attributes : List (QName × String) := []
  bound : List String := []

namespace Tag

/-- The name of an element, which has neither of the reserved prefixes. -/
def name? (reversed : Text) : Option QName :=
  (qname? reversed).bind fun name =>
    if name.space = "xml" ∨ name.space = "xmlns" then none else some name

/-- The tag of an element with a name. -/
def ofName? (reversed : Text) : Option Tag :=
  (name? reversed).map fun name => { name }

/-- The name of an attribute, which no other attribute has that is kept. -/
def attributeName? (tag : Tag) (reversed : Text) : Option QName :=
  (qname? reversed).bind fun name =>
    if tag.attributes.any fun attr => attr.1 = name then none else some name

/-- The tag with another attribute. -/
def add? (tag : Tag) (name : QName) (value : String) : Option Tag :=
  if isBinding name then
    (binding? name value).map fun space => { tag with bound := space :: tag.bound }
  else some { tag with attributes := (name, value) :: tag.attributes }

/-- The attributes by their names without prefixes; of two with one name the last one counts. -/
def localAttributes (tag : Tag) : List (String × String) :=
  tag.attributes.reverse.foldl
    (fun kept attr => kept.filter (fun other => other.1 ≠ attr.1.name) ++ [(attr.1.name, attr.2)]) []

end Tag

/-! ### Nesting -/

/-- An element that is still open: its children so far, the last one first, and the prefixes that are
bound in it. -/
structure OpenElement where
  name : QName
  attributes : List (String × String)
  children : List Element := []
  bound : List String

/-- The elements that are open, the innermost first, and those that are complete, the last one
first. -/
structure Nesting where
  stack : List OpenElement := []
  roots : List Element := []

namespace Nesting

/-- Whether no element is open. -/
def isOutside (nesting : Nesting) : Bool :=
  nesting.stack.isEmpty

/-- Adds a complete element to the innermost open one. -/
def add (nesting : Nesting) (element : Element) : Nesting :=
  match nesting.stack with
  | [] => { nesting with roots := element :: nesting.roots }
  | parent :: rest =>
    { nesting with stack := { parent with children := element :: parent.children } :: rest }

/-- An opening tag, or the tag of an empty element. -/
def open? (nesting : Nesting) (tag : Tag) (empty : Bool) : Option Nesting :=
  let bound := tag.bound ++ (nesting.stack.head?.map OpenElement.bound).getD alwaysBound
  if (tag.name :: tag.attributes.map Prod.fst).any fun name => !bound.contains name.space then none
  else if empty then some (nesting.add (.mk tag.name.name tag.localAttributes []))
  else
    let element := { name := tag.name, attributes := tag.localAttributes, bound }
    some { nesting with stack := element :: nesting.stack }

/-- A closing tag. -/
def close? (nesting : Nesting) (name : QName) : Option Nesting :=
  match nesting.stack with
  | element :: rest =>
    if element.name = name then
      some ({ nesting with stack := rest }.add
        (.mk name.name element.attributes element.children.reverse))
    else none
  | [] => none

/-- The root, once no element is open. -/
def root? (nesting : Nesting) : Option Element :=
  if nesting.isOutside then nesting.roots.getLast? else none

end Nesting
end Markup
end BlockProgram
