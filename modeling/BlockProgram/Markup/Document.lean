import BlockProgram.Markup.Declaration
import BlockProgram.Markup.Doctype
import BlockProgram.Markup.Nesting

/-!
Documents, read token by token.

```text
start ──▶ content ──<──▶ opening tag ⇄ attributes ──>──▶ content
             ├──</──▶ closing tag ──>──▶ content
             ├──<!--, <![CDATA[, <?──▶ comment, data, instruction ──▶ content
             ├──<!DOCTYPE──▶ document type ──>──▶ content
             └──&──▶ reference ──;──▶ content, and the text of the entity is read there
```

Text stands only inside elements, the declaration only at the very start and the document type only
before the first element. References also stand in values, where the text of an entity is taken as it is.
-/

namespace BlockProgram
namespace Markup

/-- How far a document has come. -/
inductive Stage where
  | start
  | prolog
  | afterDoctype
  | body
  deriving DecidableEq, Repr

/-- Whose value is read. -/
inductive Owner where
  | attr (tag : Tag) (name : QName)
  | declared (part : Declaration.Part)

/-- What the reader of a document is inside of. Texts under construction are reversed. -/
inductive Document.Mode where
  | start
  | content
  | comment
  | data
  /-- The name of an instruction. -/
  | instruction (name : Text)
  | instructionData
  | declaration (place : Declaration.Place)
  | doctype (doctype : Doctype)
  | openName (name : Text)
  /-- Inside a tag, where an attribute may begin. -/
  | tag (tag : Tag)
  | attributeName (tag : Tag) (name : Text)
  /-- After the white space that follows an attribute's name. -/
  | attributeSpace (tag : Tag) (name : QName)
  /-- Before the quote that starts a value. -/
  | beforeValue (owner : Owner)
  | value (owner : Owner) (quote : Char) (text : Text)
  | afterValue (tag : Tag)
  | closeName (name : Text)
  | closeSpace (name : QName)
  | reference (name : Text)
  | valueReference (owner : Owner) (quote : Char) (text : Text) (name : Text)

/-- A document that is read. -/
structure Document where
  mode : Document.Mode := .start
  stage : Stage := .start
  nesting : Nesting := {}
  declaration : Declaration := {}
  entities : Entities := []
  /-- Whether a mark at its start says that it is in UTF-8. -/
  marked : Bool := false
  /-- The encoding of what follows. -/
  encoding : Encoding := .utf8

namespace Document

def version (d : Document) : Version :=
  d.declaration.version

/-- The same document in another mode. -/
def enter (d : Document) (mode : Mode) : Document :=
  { d with mode }

/-- The document after something that may stand anywhere but before the declaration. -/
def settle (d : Document) : Document :=
  { d with stage := if d.stage = .start then .prolog else d.stage }

/-! ### Content -/

/-- Goes on if the token stands inside an element. -/
def inside (d : Document) (next : Document) : Option Document :=
  if d.nesting.isOutside then none else some next

/-- One character between tags. -/
def stepChar (d : Document) (c : Char) : Option Document :=
  if d.nesting.isOutside then if isSpace c then some d else none
  else if isPlain d.version c then some d
  else none

/-- What begins with a token that may stand outside elements. -/
def begin? (d : Document) (t : Token) : Option Document :=
  match t with
  | .tagStart => some { d with mode := .openName [], stage := .body }
  | .commentStart => some (d.settle.enter .comment)
  | .instructionStart => some (d.enter (.instruction []))
  | .doctypeStart =>
    if d.stage = .start ∨ d.stage = .prolog then
      some { d with mode := .doctype {}, stage := .afterDoctype }
    else none
  | _ => none

/-- The first token of a document. -/
def stepStart (d : Document) (t : Token) : Option Document :=
  match t with
  | .char c => if isSpace c then some (d.settle.enter .content) else none
  | t => d.begin? t

/-- One token between tags. -/
def stepContent (d : Document) (t : Token) : Option Document :=
  match t with
  | .char c => d.stepChar c
  | .closingStart => d.inside (d.enter (.closeName []))
  | .dataStart => d.inside (d.enter .data)
  | .referenceStart => d.inside (d.enter (.reference []))
  | .dataEnd => none
  | .declarationStart => none
  | .tagStart => d.begin? t
  | .commentStart => d.begin? t
  | .instructionStart => d.begin? t
  | .doctypeStart => d.begin? t
  | _ => d.inside d

/-- One token of what is not kept, up to a token that ends it. -/
def stepIgnored (d : Document) (last : Token) (t : Token) : Option Document :=
  if t = last then some (d.enter .content)
  else
    match t with
    | .char c => if isAllowed d.version c then some d else none
    | _ => some d

/-! ### Instructions and declarations -/

/-- Whether a name is `xml` in any case. -/
def isReserved (reversed : Text) : Bool :=
  reversed.reverse.map Char.toLower = "xml".toList

/-- One token of the name of an instruction. The name `xml` at the very start begins the declaration. -/
def stepInstruction (d : Document) (name : Text) (t : Token) : Option Document :=
  match t with
  | .instructionEnd =>
    if name.isEmpty || isReserved name || !fitsName name then none
    else some (d.settle.enter .content)
  | .char c =>
    if !isSpace c then (extendName? name c).map fun name => d.enter (.instruction name)
    else if name.reverse = "xml".toList ∧ d.stage = .start then
      some (d.enter (.declaration (.before .version)))
    else if isReserved name || !fitsName name then none
    else some (d.settle.enter .instructionData)
  | _ => none

/-- One token of the declaration outside its values. -/
def stepDeclaration (d : Document) (place : Declaration.Place) (t : Token) : Option Document :=
  (place.step t).bind fun place =>
    match place with
    | .value part => some (d.enter (.beforeValue (.declared part)))
    | .finished =>
      (d.declaration.encoding? d.marked).map fun encoding =>
        { d.settle with mode := .content, encoding }
    | place => some (d.enter (.declaration place))

/-! ### Tags -/

/-- Opens an element. -/
def open? (d : Document) (tag : Tag) (empty : Bool) : Option Document :=
  (d.nesting.open? tag empty).map fun nesting => { d with mode := .content, nesting }

/-- Closes an element. -/
def close? (d : Document) (name : QName) : Option Document :=
  (d.nesting.close? name).map fun nesting => { d with mode := .content, nesting }

/-- One token of the name of an opening tag. -/
def stepOpenName (d : Document) (name : Text) (t : Token) : Option Document :=
  match t with
  | .char c =>
    if isSpace c then (Tag.ofName? name).map fun tag => d.enter (.tag tag)
    else (extendQName? name c).map fun name => d.enter (.openName name)
  | .tagEnd => (Tag.ofName? name).bind fun tag => d.open? tag false
  | .emptyTagEnd => (Tag.ofName? name).bind fun tag => d.open? tag true
  | _ => none

/-- One token where an attribute may begin. -/
def stepTag (d : Document) (tag : Tag) (t : Token) : Option Document :=
  match t with
  | .char c =>
    if isSpace c then some d
    else if tag.attributes.length ≤ maxAttributes then
      (extendQName? [] c).map fun name => d.enter (.attributeName tag name)
    else none
  | .tagEnd => d.open? tag false
  | .emptyTagEnd => d.open? tag true
  | _ => none

/-- One token of the name of an attribute. -/
def stepAttributeName (d : Document) (tag : Tag) (name : Text) (t : Token) : Option Document :=
  match t with
  | .equals =>
    (tag.attributeName? name).map fun name => d.enter (.beforeValue (.attr tag name))
  | .char c =>
    if isSpace c then
      (tag.attributeName? name).map fun name => d.enter (.attributeSpace tag name)
    else (extendQName? name c).map fun name => d.enter (.attributeName tag name)
  | _ => none

/-- One token between the name of an attribute and the equals sign. -/
def stepAttributeSpace (d : Document) (tag : Tag) (name : QName) (t : Token) : Option Document :=
  match t with
  | .equals => some (d.enter (.beforeValue (.attr tag name)))
  | .char c => if isSpace c then some d else none
  | _ => none

/-- One token after a value in a tag. -/
def stepAfterValue (d : Document) (tag : Tag) (t : Token) : Option Document :=
  match t with
  | .char c => if isSpace c then some (d.enter (.tag tag)) else none
  | .tagEnd => d.open? tag false
  | .emptyTagEnd => d.open? tag true
  | _ => none

/-- One token of the name of a closing tag. -/
def stepCloseName (d : Document) (name : Text) (t : Token) : Option Document :=
  match t with
  | .char c =>
    if isSpace c then (Tag.name? name).map fun name => d.enter (.closeSpace name)
    else (extendQName? name c).map fun name => d.enter (.closeName name)
  | .tagEnd => (Tag.name? name).bind d.close?
  | _ => none

/-- One token after the name of a closing tag. -/
def stepCloseSpace (d : Document) (name : QName) (t : Token) : Option Document :=
  match t with
  | .char c => if isSpace c then some d else none
  | .tagEnd => d.close? name
  | _ => none

/-! ### Values and references -/

/-- One token before the quote that starts a value. -/
def stepBeforeValue (d : Document) (owner : Owner) (t : Token) : Option Document :=
  match t with
  | .quote quote => some (d.enter (.value owner quote []))
  | .char c => if isSpace c then some d else none
  | _ => none

/-- A value that is complete. -/
def finishValue (d : Document) (owner : Owner) (value : String) : Option Document :=
  match owner with
  | .attr tag name => (tag.add? name value).map fun tag => d.enter (.afterValue tag)
  | .declared part =>
    (d.declaration.set? part value).map fun declaration =>
      { d with mode := .declaration (.after part), declaration }

/-- One token of a value. Most of what means something elsewhere is text here; only tags and
instructions must not begin. -/
def stepValue (d : Document) (owner : Owner) (quote : Char) (text : Text) (t : Token) :
    Option Document :=
  if t = .quote quote then d.finishValue owner (String.ofList text.reverse)
  else
    let goOn := d.enter (.value owner quote (t.text.reverse ++ text))
    match t with
    | .tagStart => none
    | .instructionStart => none
    | .referenceStart => some (d.enter (.valueReference owner quote text []))
    | .char c => if isPlain d.version c then some goOn else none
    | _ => some goOn

/-- The name of a reference with one more character. -/
def extendReference? (name : Text) (c : Char) : Option Text :=
  if name.isEmpty && c = '#' then some ['#'] else extendName? name c

/-- One token of a reference between tags. The text of an entity is read in its place. -/
def stepReference (d : Document) (name : Text) (t : Token) : Option (Document × Text) :=
  match t with
  | .char c => (extendReference? name c).map fun name => (d.enter (.reference name), [])
  | .referenceEnd =>
    if (referenced? d.version name.reverse).isSome then some (d.enter .content, [])
    else
      (d.entities.text? .general name.reverse).map fun text => (d.enter .content, text)
  | _ => none

/-- One token of a reference in a value. The text of an entity is part of the value. -/
def stepValueReference (d : Document) (owner : Owner) (quote : Char) (text name : Text) (t : Token) :
    Option Document :=
  match t with
  | .char c =>
    (extendReference? name c).map fun name => d.enter (.valueReference owner quote text name)
  | .referenceEnd =>
    let referenced : Option Text :=
      ((referenced? d.version name.reverse).map fun c => [c]).or
        (d.entities.text? .general name.reverse)
    referenced.map fun more => d.enter (.value owner quote (more.reverse ++ text))
  | _ => none

/-! ### The automaton -/

/-- One token of the document type. -/
def stepDoctype (d : Document) (doctype : Doctype) (t : Token) : Option (Document × Text) :=
  (doctype.step d.version t).map fun next =>
    match next.1.mode with
    | .finished => ({ d with mode := .content, entities := next.1.entities }, next.2)
    | _ => (d.enter (.doctype next.1), next.2)

/-- One token: the document after it, and the text that is to be read next. -/
def step (d : Document) (t : Token) : Option (Document × Text) :=
  let goOn : Option Document → Option (Document × Text) := Option.map fun d => (d, [])
  match d.mode with
  | .start => goOn (d.stepStart t)
  | .content => goOn (d.stepContent t)
  | .comment => goOn (d.stepIgnored .commentEnd t)
  | .data => goOn (d.stepIgnored .dataEnd t)
  | .instruction name => goOn (d.stepInstruction name t)
  | .instructionData => goOn (d.stepIgnored .instructionEnd t)
  | .declaration place => goOn (d.stepDeclaration place t)
  | .doctype doctype => d.stepDoctype doctype t
  | .openName name => goOn (d.stepOpenName name t)
  | .tag tag => goOn (d.stepTag tag t)
  | .attributeName tag name => goOn (d.stepAttributeName tag name t)
  | .attributeSpace tag name => goOn (d.stepAttributeSpace tag name t)
  | .beforeValue owner => goOn (d.stepBeforeValue owner t)
  | .value owner quote text => goOn (d.stepValue owner quote text t)
  | .afterValue tag => goOn (d.stepAfterValue tag t)
  | .closeName name => goOn (d.stepCloseName name t)
  | .closeSpace name => goOn (d.stepCloseSpace name t)
  | .reference name => d.stepReference name t
  | .valueReference owner quote text name => goOn (d.stepValueReference owner quote text name t)

/-- The root of a document that ends here. -/
def root? (d : Document) : Option Element :=
  match d.mode with
  | .content => d.nesting.root?
  | _ => none

end Document
end Markup
end BlockProgram
