import BlockProgram.Block.Kind
import BlockProgram.Json.Basic

/-!
The shape of a block type as an editor shows it: its message, the fields and inputs in it, what its
output and its connections accept, its colour and its tooltip. `BlockSchema.toJson` writes it in the
editor's format of block definitions, in which an absent connection is left out and one that accepts
anything is `null`.
-/

namespace BlockProgram

/-- What a connection of a block accepts. -/
inductive Check where
  /-- There is no such connection. -/
  | absent
  /-- Every block. -/
  | any
  /-- Blocks of one type. -/
  | typed (tag : String)
  deriving DecidableEq, Repr, Inhabited

/-- A field or an input in the message of a block. -/
inductive Arg where
  | fieldInput (name text : String)
  | fieldNumber (name : String) (value : Binary64)
  | fieldDropdown (name : String) (options : List (String × String))
  | fieldLabel (text : String)
  | inputValue (name : String) (check : Option String)
  | inputStatement (name : String) (check : Option String)
  deriving DecidableEq, Repr

/-- The part of the toolbox that a block type belongs to. -/
inductive Category where
  | naming
  | values
  | math
  | logic
  | collections
  | control
  | functions
  | custom
  deriving DecidableEq, Repr, Inhabited

namespace Category

/-- The categories in the order of the toolbox. -/
def all : List Category :=
  [naming, values, math, logic, collections, control, functions, custom]

def label : Category → String
  | naming => "Variables"
  | values => "Values"
  | math => "Math"
  | logic => "Logic"
  | collections => "Collections"
  | control => "Control"
  | functions => "Functions"
  | custom => "Custom"

/-- The category of a label. -/
def ofLabel? (label : String) : Option Category :=
  all.find? fun category => category.label = label

end Category

/-- The shape of a block type. -/
structure BlockSchema where
  typeName : String
  message : String
  args : List Arg := []
  bodyMessage : Option String := none
  bodyArgs : List Arg := []
  output : Check := .absent
  previous : Check := .absent
  next : Check := .absent
  inline : Bool := false
  colour : UInt16
  tooltip : String := ""
  helpUrl : String := ""
  category : Category
  deriving DecidableEq, Repr

namespace BlockSchema

/-- Whether blocks of the type give a value. -/
def isValueBlock (schema : BlockSchema) : Bool :=
  schema.output ≠ .absent

end BlockSchema

/-! ### Definitions as JSON -/

/-- A text, or `null` for none. -/
def Json.ofOption : Option String → Json
  | none => .null
  | some s => .string s

/-- The member of a connection; none when it is absent. -/
def Check.member (name : String) : Check → List (String × Json)
  | absent => []
  | any => [(name, .null)]
  | typed tag => [(name, .string tag)]

namespace Arg

/-- The members of an argument after its type. -/
def toMembers : Arg → String × List (String × Json)
  | fieldInput name text => ("field_input", [("name", .string name), ("text", .string text)])
  | fieldNumber name value =>
    ("field_number",
      [("name", .string name),
       ("value", if value.isFinite then .number (.double value) else .null)])
  | fieldDropdown name options =>
    ("field_dropdown",
      [("name", .string name),
       ("options", .array (options.map fun option => .array [.string option.1, .string option.2]))])
  | fieldLabel text => ("field_label", [("text", .string text)])
  | inputValue name check => ("input_value", [("name", .string name), ("check", .ofOption check)])
  | inputStatement name check =>
    ("input_statement", [("name", .string name), ("check", .ofOption check)])

def toJson (arg : Arg) : Json :=
  .object (("type", .string arg.toMembers.1) :: arg.toMembers.2)

end Arg

/-- The definition of a block type, its members in the order of the format. -/
def BlockSchema.toJson (schema : BlockSchema) : Json :=
  .object <|
    [("type", .string schema.typeName), ("message0", .string schema.message),
     ("args0", .array (schema.args.map Arg.toJson))] ++
    (schema.bodyMessage.elim [] fun message => [("message1", .string message)]) ++
    (if schema.bodyArgs.isEmpty then []
      else [("args1", .array (schema.bodyArgs.map Arg.toJson))]) ++
    schema.output.member "output" ++
    schema.previous.member "previousStatement" ++
    schema.next.member "nextStatement" ++
    (if schema.inline then [("inputsInline", .bool true)] else []) ++
    [("colour", .number (.integer schema.colour.toNat)), ("tooltip", .string schema.tooltip),
     ("helpUrl", .string schema.helpUrl)]

end BlockProgram
