import BlockProgram.Schema.Basic

/-!
The shapes of the builtin block types and of custom literals. Statements chain with any statement
unless they are parts of a list: items, properties and parameters chain with their own type only.
-/

namespace BlockProgram

namespace Colour

def naming : UInt16 := 230
def values : UInt16 := 160
def logic : UInt16 := 210
def arrays : UInt16 := 290
def loops : UInt16 := 120
def returns : UInt16 := 20
def customLiterals : UInt16 := 330

end Colour

namespace BlockSchema

/-- A value socket for any block. -/
def socket (name : String) : Arg := .inputValue name none

/-- The shape of a block with one label and an output of any type. -/
def customLiteral (typeName label : String) : BlockSchema where
  typeName := typeName
  message := "%1"
  args := [.fieldLabel label]
  output := .any
  colour := Colour.customLiterals
  tooltip := "Custom literal: " ++ label
  category := .custom

/-- The shape of an operator between the sockets `A` and `B`. -/
def binary (kind : BlockKind) (symbol : String) (output : Check) (colour : UInt16)
    (category : Category) (tooltip : String) : BlockSchema where
  typeName := kind.typeName
  message := "%1 " ++ symbol ++ " %2"
  args := [socket "A", socket "B"]
  output
  inline := true
  colour
  tooltip
  category

/-- The shape of an arithmetic operator. -/
def arithmetic (kind : BlockKind) (symbol tooltip : String) : BlockSchema :=
  binary kind symbol .any Colour.values .math tooltip

/-- The shape of an operator that gives a truth value. -/
def predicate (kind : BlockKind) (symbol tooltip : String) : BlockSchema :=
  binary kind symbol (.typed "Boolean") Colour.logic .logic tooltip

/-- The shape of each kind. -/
def ofKind (kind : BlockKind) : BlockSchema :=
  match kind with
  | .variableDeclaration =>
    { typeName := kind.typeName, message := "vl %1 = %2", colour := Colour.naming
      category := .naming, args := [.fieldInput "VAR_NAME" "varName", socket "VALUE"]
      previous := .any, next := .any, tooltip := "Declare a variable with the vl keyword" }
  | .variableReference =>
    { typeName := kind.typeName, message := "%1", colour := Colour.naming
      category := .naming, args := [.fieldInput "VAR_NAME" "varName"]
      output := .any, tooltip := "Reference a variable by name" }
  | .numberLiteral =>
    { typeName := kind.typeName, message := "%1", colour := Colour.values
      category := .values, args := [.fieldNumber "NUM" .zero]
      output := .typed "Number", tooltip := "A number value" }
  | .stringLiteral =>
    { typeName := kind.typeName, message := "\"%1\"", colour := Colour.values
      category := .values, args := [.fieldInput "TEXT" ""]
      output := .typed "String", tooltip := "A string value" }
  | .booleanLiteral =>
    { typeName := kind.typeName, message := "%1", colour := Colour.values
      category := .values, args := [.fieldDropdown "BOOL" [("true", "true"), ("false", "false")]]
      output := .typed "Boolean", tooltip := "A boolean value (true or false)" }
  | .anyConcat => arithmetic kind "+" "Concatenate any two values"
  | .mathSubtract => arithmetic kind "-" "Subtract two values"
  | .mathMultiply => arithmetic kind "×" "Multiply two values"
  | .mathDivide => arithmetic kind "÷" "Divide two values"
  | .returnStatement =>
    { typeName := kind.typeName, message := "res %1", colour := Colour.returns
      category := .control, args := [socket "VALUE"]
      previous := .any, next := .any, tooltip := "Return a value from a function or script." }
  | .arrayLiteral =>
    { typeName := kind.typeName, message := "List %1", colour := Colour.arrays
      category := .collections, args := [.inputStatement "ITEMS" (some "ArrayItem")]
      output := .typed "Array", tooltip := "Create an array" }
  | .arrayItem =>
    { typeName := kind.typeName, message := "%1", colour := Colour.arrays
      category := .collections, args := [socket "VALUE"]
      previous := .typed "ArrayItem", next := .typed "ArrayItem", tooltip := "Item in an array" }
  | .objectLiteral =>
    { typeName := kind.typeName, message := "Object %1", colour := Colour.logic
      category := .collections, args := [.inputStatement "PROPERTIES" (some "ObjectProperty")]
      output := .typed "Object", tooltip := "Create an object" }
  | .objectProperty =>
    { typeName := kind.typeName, message := "%1 : %2", colour := Colour.logic
      category := .collections, args := [.fieldInput "PROP_NAME" "property", socket "VALUE"]
      previous := .typed "ObjectProperty", next := .typed "ObjectProperty"
      tooltip := "Property in an object" }
  | .ifStatement =>
    { typeName := kind.typeName, message := "if %1", colour := Colour.logic
      category := .control, args := [socket "CONDITION"]
      bodyMessage := some "%1", bodyArgs := [.inputStatement "DO" none]
      previous := .any, next := .any
      tooltip := "If statement - executes the block if the condition is true" }
  | .logicAnd => predicate kind "and" "Logical AND operator"
  | .logicOr => predicate kind "or" "Logical OR operator"
  | .logicNot =>
    { typeName := kind.typeName, message := "not %1", colour := Colour.logic
      category := .logic, args := [socket "BOOL"]
      output := .typed "Boolean", tooltip := "Logical NOT operator" }
  | .comparisonGt => predicate kind "greater than" "Greater than comparison"
  | .comparisonLt => predicate kind "less than" "Less than comparison"
  | .comparisonEq => predicate kind "equals" "Equality comparison"
  | .comparisonNeq => predicate kind "not equal to" "Inequality comparison"
  | .comparisonGte => predicate kind "greater than or equal to" "Greater than or equal comparison"
  | .comparisonLte => predicate kind "less than or equal to" "Less than or equal comparison"
  | .loopStatement =>
    { typeName := kind.typeName, message := "loop %1 in %2", colour := Colour.loops
      category := .control, args := [.fieldInput "ITER_VAR" "item", socket "ITERABLE"]
      bodyMessage := some "%1", bodyArgs := [.inputStatement "DO" none]
      previous := .any, next := .any, tooltip := "Loop through items in a collection" }
  | .objectPropertyAccess =>
    { typeName := kind.typeName, message := "%1 . %2", colour := Colour.logic
      category := .collections, args := [socket "OBJECT", .fieldInput "PROPERTY" "property"]
      output := .any, inline := true, tooltip := "Access an object property using dot notation" }
  | .objectBracketAccess =>
    { typeName := kind.typeName, message := "%1 [ %2 ]", colour := Colour.logic
      category := .collections, args := [socket "OBJECT", socket "PROPERTY"]
      output := .any, inline := true
      tooltip := "Access an object property using bracket notation" }
  | .arrayIndexAccess =>
    { typeName := kind.typeName, message := "%1 [ %2 ]", colour := Colour.arrays
      category := .collections, args := [socket "ARRAY", .inputValue "INDEX" (some "Number")]
      output := .any, inline := true, tooltip := "Access an array element by index" }
  | .functionCall =>
    { typeName := kind.typeName, message := "call %1", colour := Colour.values
      category := .functions, args := [socket "FUNCTION_NAME"]
      output := .any, next := .typed "FunctionParams", tooltip := "Call a function" }
  | .functionParams =>
    { typeName := kind.typeName, message := "with parameters %1", colour := Colour.values
      category := .functions, args := [.inputStatement "PARAMS" (some "FunctionParameter")]
      previous := .typed "FunctionParams", tooltip := "Add parameters to a function call" }
  | .functionParameter =>
    { typeName := kind.typeName, message := "%1", colour := Colour.values
      category := .functions, args := [socket "PARAM_VALUE"]
      previous := .typed "FunctionParameter", next := .typed "FunctionParameter"
      tooltip := "Parameter for a function call" }
  | .custom name => customLiteral name name

end BlockSchema
end BlockProgram
