/-!
The kinds of blocks. A program is put together from thirty-one builtin kinds; any other type name is
that of a custom literal, a block whose code is a fixed text.
-/

namespace BlockProgram

/-- What a block is. -/
inductive BlockKind where
  | variableDeclaration
  | numberLiteral
  | stringLiteral
  | booleanLiteral
  | anyConcat
  | mathSubtract
  | mathMultiply
  | mathDivide
  | returnStatement
  | arrayLiteral
  | arrayItem
  | objectLiteral
  | objectProperty
  | variableReference
  | ifStatement
  | logicAnd
  | logicOr
  | logicNot
  | comparisonGt
  | comparisonLt
  | comparisonEq
  | comparisonNeq
  | comparisonGte
  | comparisonLte
  | loopStatement
  | objectPropertyAccess
  | objectBracketAccess
  | arrayIndexAccess
  | functionCall
  | functionParams
  | functionParameter
  | custom (name : String)
  deriving DecidableEq, Repr, Inhabited

namespace BlockKind

/-- The builtin kinds, in the order in which they are registered. -/
def builtins : List BlockKind :=
  [variableDeclaration, numberLiteral, stringLiteral, booleanLiteral, anyConcat, mathSubtract,
   mathMultiply, mathDivide, returnStatement, arrayLiteral, arrayItem, objectLiteral, objectProperty,
   variableReference, ifStatement, logicAnd, logicOr, logicNot, comparisonGt, comparisonLt,
   comparisonEq, comparisonNeq, comparisonGte, comparisonLte, loopStatement, objectPropertyAccess,
   objectBracketAccess, arrayIndexAccess, functionCall, functionParams, functionParameter]

/-- The type name of a kind in saved workspaces, definitions and toolboxes. -/
def typeName : BlockKind → String
  | variableDeclaration => "variable_declaration"
  | numberLiteral => "number_literal"
  | stringLiteral => "string_literal"
  | booleanLiteral => "boolean_literal"
  | anyConcat => "any_concat"
  | mathSubtract => "math_subtract"
  | mathMultiply => "math_multiply"
  | mathDivide => "math_divide"
  | returnStatement => "return_statement"
  | arrayLiteral => "array_literal"
  | arrayItem => "array_item"
  | objectLiteral => "object_literal"
  | objectProperty => "object_property"
  | variableReference => "variable_reference"
  | ifStatement => "if_statement"
  | logicAnd => "logic_and"
  | logicOr => "logic_or"
  | logicNot => "logic_not"
  | comparisonGt => "comparison_gt"
  | comparisonLt => "comparison_lt"
  | comparisonEq => "comparison_eq"
  | comparisonNeq => "comparison_neq"
  | comparisonGte => "comparison_gte"
  | comparisonLte => "comparison_lte"
  | loopStatement => "loop_statement"
  | objectPropertyAccess => "object_property_access"
  | objectBracketAccess => "object_bracket_access"
  | arrayIndexAccess => "array_index_access"
  | functionCall => "function_call"
  | functionParams => "function_params"
  | functionParameter => "function_parameter"
  | custom name => name

/-- The kind with a type name: the builtin one of that name, else a custom literal. -/
def ofTypeName (name : String) : BlockKind :=
  (builtins.find? fun kind => kind.typeName = name).getD (custom name)

def isBuiltin : BlockKind → Bool
  | custom _ => false
  | _ => true

/-- Statements stand in chains and give text of their own; every other kind gives an expression. -/
def isStatement : BlockKind → Bool
  | variableDeclaration | returnStatement | arrayItem | objectProperty | ifStatement
  | loopStatement | functionParams | functionParameter => true
  | _ => false

theorem ofTypeName_typeName {kind : BlockKind} (h : kind.isBuiltin = true) :
    ofTypeName kind.typeName = kind := by
  cases kind <;> first | rfl | simp [isBuiltin] at h

/-- A type name and its kind determine each other. -/
theorem typeName_ofTypeName (name : String) : (ofTypeName name).typeName = name := by
  unfold ofTypeName
  cases h : builtins.find? fun kind => kind.typeName = name with
  | none => rfl
  | some kind => simpa using List.find?_some h

end BlockKind
end BlockProgram
