import BlockProgram.Markup.Name

/-!
The document type: its declarations of entities, which give names to texts. Other declarations are
skipped, and what stands between them means nothing. Of two declarations of one name the first counts.

```text
between ──<!──▶ keyword ──ENTITY──▶ name ──▶ value ──▶ skip ──>──▶ between
   │               └──NOTATION, ELEMENT, ATTLIST────────▲
   └──%──▶ reference ──;──▶ between, and the text of the entity is read there
```

There are two kinds of entities, whose names do not meet: general ones, to which the document refers, and
parameters, to which the document type refers. A parameter is put into a value when the value is read; of
the references to general entities only those by number are.
-/

namespace BlockProgram
namespace Markup

/-- The kinds of entities. -/
inductive EntityKind where
  | general
  | parameter
  deriving DecidableEq, Repr

/-- The texts of the entities, the earlier ones first. -/
abbrev Entities := List ((EntityKind × Text) × Text)

namespace Entities

/-- The text of an entity. -/
def text? (entities : Entities) (kind : EntityKind) (name : Text) : Option Text :=
  entities.lookup (kind, name)

/-- Another declaration, which counts for nothing if the name has a text. -/
def declare (entities : Entities) (kind : EntityKind) (name text : Text) : Entities :=
  entities ++ [((kind, name), text)]

end Entities

/-- An entity whose value is read, the value reversed. -/
structure OpenEntity where
  kind : EntityKind
  name : Text
  quote : Char
  value : Text := []
  deriving Repr

namespace OpenEntity

/-- The entity with one more character in its value. -/
def push (entity : OpenEntity) (c : Char) : OpenEntity :=
  { entity with value := c :: entity.value }

/-- The entity with a text after its value. -/
def append (entity : OpenEntity) (text : Text) : OpenEntity :=
  { entity with value := text.reverse ++ entity.value }

end OpenEntity

/-- What the reader of a document type is inside of. Texts under construction are reversed. -/
inductive Doctype.Mode where
  | between
  | comment
  | string (quote : Char)
  | keyword (word : Text)
  | beforeName
  /-- After a percent sign that makes the entity a parameter. -/
  | beforeParameter
  | name (kind : EntityKind) (name : Text)
  | beforeValue (kind : EntityKind) (name : Text)
  | value (entity : OpenEntity)
  /-- After an ampersand in a value. -/
  | ampersand (entity : OpenEntity)
  | number (entity : OpenEntity) (text : Text)
  /-- A reference to a parameter in a value. -/
  | parameter (entity : OpenEntity) (name : Text)
  /-- A reference to a parameter between declarations. -/
  | reference (name : Text)
  /-- The rest of a declaration. -/
  | skip
  | finished
  deriving Repr

/-- A document type that is read. -/
structure Doctype where
  mode : Doctype.Mode := .between
  entities : Entities := []
  deriving Repr

namespace Doctype

/-- The same document type in another mode. -/
def enter (doctype : Doctype) (mode : Mode) : Doctype :=
  { doctype with mode }

/-! ### Between declarations -/

/-- One token between declarations. -/
def stepBetween (doctype : Doctype) (t : Token) : Option Doctype :=
  match t with
  | .tagEnd => some (doctype.enter .finished)
  | .declarationStart => some (doctype.enter (.keyword []))
  | .commentStart => some (doctype.enter .comment)
  | .quote c => some (doctype.enter (.string c))
  | .dataStart => none
  | .dataEnd => none
  | .char '%' => some (doctype.enter (.reference []))
  | _ => some doctype

/-- One token of the word that a declaration starts with. -/
def stepKeyword (doctype : Doctype) (word : Text) (t : Token) : Option Doctype :=
  match t with
  | .char c =>
    if 'A' ≤ c ∧ c ≤ 'Z' then some (doctype.enter (.keyword (c :: word)))
    else if !isSpace c then none
    else if word.reverse = "ENTITY".toList then some (doctype.enter .beforeName)
    else if ["NOTATION", "ELEMENT", "ATTLIST"].contains (String.ofList word.reverse) then
      some (doctype.enter .skip)
    else none
  | _ => none

/-! ### Entities -/

/-- One token before the name of an entity. -/
def stepBeforeName (doctype : Doctype) (kind : EntityKind) (t : Token) : Option Doctype :=
  match t with
  | .char c =>
    if isSpace c then some doctype
    else if c = '%' ∧ kind = .general then some (doctype.enter .beforeParameter)
    else (extendName? [] c).map fun name => doctype.enter (.name kind name)
  | _ => none

/-- One token of the name of an entity. -/
def stepName (doctype : Doctype) (kind : EntityKind) (name : Text) (t : Token) : Option Doctype :=
  match t with
  | .char c =>
    if !isSpace c then (extendName? name c).map fun name => doctype.enter (.name kind name)
    else if fitsName name then some (doctype.enter (.beforeValue kind name.reverse))
    else none
  | _ => none

/-- One token before the value of an entity. The texts of entities that stand elsewhere are not read,
which leaves them empty. -/
def stepBeforeValue (doctype : Doctype) (kind : EntityKind) (name : Text) (t : Token) :
    Option Doctype :=
  match t with
  | .quote quote => some (doctype.enter (.value { kind, name, quote }))
  | .char c =>
    if isSpace c then some doctype
    else if c = 'S' ∨ c = 'P' then some ⟨.skip, doctype.entities.declare kind name []⟩
    else none
  | _ => none

/-- One token of the value of an entity. -/
def stepValue (version : Version) (doctype : Doctype) (entity : OpenEntity) (t : Token) :
    Option Doctype :=
  match t with
  | .quote c =>
    if c = entity.quote then
      some ⟨.skip, doctype.entities.declare entity.kind entity.name entity.value.reverse⟩
    else some (doctype.enter (.value (entity.push c)))
  | .referenceStart => some (doctype.enter (.ampersand entity))
  | .char '&' => some (doctype.enter (.ampersand entity))
  | .char '%' => some (doctype.enter (.parameter entity []))
  | .char c =>
    if isAllowed version c then some (doctype.enter (.value (entity.push c))) else none
  | _ => none

/-- The token after an ampersand. Only a number becomes a character; other references are left for the
place where the entity is used. -/
def stepAmpersand (version : Version) (doctype : Doctype) (entity : OpenEntity) (t : Token) :
    Option Doctype :=
  match t with
  | .char '#' => some (doctype.enter (.number entity []))
  | .char c =>
    if isAllowed version c then some (doctype.enter (.value ((entity.push '&').push c))) else none
  | _ => none

/-- One token of a reference by number. -/
def stepNumber (version : Version) (doctype : Doctype) (entity : OpenEntity) (text : Text)
    (t : Token) : Option Doctype :=
  let finish : Option Doctype :=
    (numbered? version text.reverse).map fun c => doctype.enter (.value (entity.push c))
  match t with
  | .referenceEnd => finish
  | .char ';' => finish
  | .char c =>
    if isAllowed version c then some (doctype.enter (.number entity (c :: text))) else none
  | _ => none

/-- One token of the name of a parameter, which a semicolon ends. -/
def stepReference (name : Text) (t : Token) (goOn : Text → Mode)
    (finish : Text → Option (Doctype × Text)) (doctype : Doctype) : Option (Doctype × Text) :=
  match t with
  | .referenceEnd => finish name.reverse
  | .char ';' => finish name.reverse
  | .char c => if isNameChar c then some (doctype.enter (goOn (c :: name)), []) else none
  | _ => none

/-! ### The automaton -/

/-- One token: the document type after it, and the text that is to be read next. -/
def step (version : Version) (doctype : Doctype) (t : Token) : Option (Doctype × Text) :=
  let goOn : Option Doctype → Option (Doctype × Text) := Option.map fun doctype => (doctype, [])
  match doctype.mode with
  | .between => goOn (doctype.stepBetween t)
  | .comment => goOn (some (if t = .commentEnd then doctype.enter .between else doctype))
  | .string quote => goOn (some (if t = .quote quote then doctype.enter .between else doctype))
  | .keyword word => goOn (doctype.stepKeyword word t)
  | .beforeName => goOn (doctype.stepBeforeName .general t)
  | .beforeParameter => goOn (doctype.stepBeforeName .parameter t)
  | .name kind name => goOn (doctype.stepName kind name t)
  | .beforeValue kind name => goOn (doctype.stepBeforeValue kind name t)
  | .value entity => goOn (doctype.stepValue version entity t)
  | .ampersand entity => goOn (doctype.stepAmpersand version entity t)
  | .number entity text => goOn (doctype.stepNumber version entity text t)
  | .parameter entity name =>
    doctype.stepReference name t (.parameter entity) fun name => do
      let text ← doctype.entities.text? .parameter name
      return (doctype.enter (.value (entity.append text)), [])
  | .reference name =>
    doctype.stepReference name t .reference fun name => do
      let text ← doctype.entities.text? .parameter name
      return (doctype.enter .between, text)
  | .skip => goOn (some (if t = .tagEnd then doctype.enter .between else doctype))
  | .finished => none

end Doctype
end Markup
end BlockProgram
