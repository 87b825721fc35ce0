import BlockProgram.Block.Kind
import BlockProgram.Block.Order

/-!
What each kind of block is rendered as. A template is a sequence of pieces whose texts are joined in
order: fixed text, the text of a field, or the code of what is plugged into an input. An unfilled
value socket gives a placeholder, so that an unfinished program still has the shape of one.

The table says which fields and inputs a kind reads and what order each socket asks for; how a piece
is rendered is said once, for all kinds.
-/

namespace BlockProgram

/-- A part of a block's code. -/
inductive Piece where
  /-- Fixed text. -/
  | text (text : String)
  /-- The text of a field, or `missing` when the block has no such field. -/
  | field (name missing : String)
  /-- The text of a field as a quoted literal. -/
  | quoted (name : String)
  /-- The expression in a value socket, or `placeholder` when it has no text. -/
  | value (input : String) (order : Order) (placeholder : String)
  /-- The statements in a socket, indented. -/
  | body (input : String)
  /-- The chain of items in a socket, separated by commas. -/
  | list (input : String)
  /-- The chain of properties in a socket, between braces. -/
  | properties (input : String)
  /-- The name of the function in a value socket, without the quotes or parentheses around it. -/
  | callee (input : String) (order : Order) (placeholder : String)
  /-- The arguments of a call, which are the code of the block after it. -/
  | arguments
  /-- The chain of parameters in a socket, unless a call has rendered it already. -/
  | parameters (input : String)
  /-- The text of a custom literal. -/
  | literal (name : String)
  deriving DecidableEq, Repr

/-- The input that a piece reads. -/
def Piece.input? : Piece → Option String
  | .value input _ _ | .body input | .list input | .properties input | .callee input _ _
  | .parameters input => some input
  | _ => none

/-- Whether the code is an expression, and of what order, or a statement. -/
inductive CodeShape where
  | expression (order : Order)
  | statement
  deriving DecidableEq, Repr

/-- The code of a kind: its shape and its pieces. -/
structure Template where
  shape : CodeShape
  pieces : List Piece
  deriving DecidableEq, Repr

namespace Template

/-- An expression that binds as tightly as any. -/
def atomic (pieces : List Piece) : Template :=
  ⟨.expression .atomic, pieces⟩

def statement (pieces : List Piece) : Template :=
  ⟨.statement, pieces⟩

/-- A binary operator between the inputs `A` and `B`, both asked for at its own order. -/
def binary (operator : String) (order : Order) (placeholder : String) : Template :=
  ⟨.expression order,
    [.value "A" order placeholder, .text (" " ++ operator ++ " "), .value "B" order placeholder]⟩

end Template

/-- The template of each kind. -/
def BlockKind.template : BlockKind → Template
  | variableDeclaration => .statement
      [.text "vl ", .field "VAR_NAME" "", .text " = ", .value "VALUE" .assignment "\"\"", .text ";\n"]
  | returnStatement => .statement [.text "res ", .value "VALUE" .none "null", .text ";\n"]
  | numberLiteral => .atomic [.field "NUM" "0"]
  | stringLiteral => .atomic [.quoted "TEXT"]
  | booleanLiteral => .atomic [.field "BOOL" "true"]
  | variableReference => .atomic [.field "VAR_NAME" ""]
  | anyConcat => .binary "+" .addition "\"\""
  | mathSubtract => .binary "-" .subtraction "0"
  | mathMultiply => .binary "*" .multiplication "0"
  | mathDivide => .binary "/" .division "0"
  | logicAnd => .binary "&&" .logicalAnd "true"
  | logicOr => .binary "||" .logicalOr "false"
  | logicNot => ⟨.expression .logicalNot, [.text "!(", .value "BOOL" .none "true", .text ")"]⟩
  | comparisonGt => .binary ">" .relational "0"
  | comparisonLt => .binary "<" .relational "0"
  | comparisonEq => .binary "==" .equality "0"
  | comparisonNeq => .binary "!=" .equality "0"
  | comparisonGte => .binary ">=" .relational "0"
  | comparisonLte => .binary "<=" .relational "0"
  | ifStatement => .statement
      [.text "if ", .value "CONDITION" .none "true", .text " \x7b\n", .body "DO", .text "\x7d\n"]
  | loopStatement => .statement
      [.text "loop ", .field "ITER_VAR" "", .text " in ", .value "ITERABLE" .member "[]",
       .text " \x7b\n", .body "DO", .text "\x7d\n"]
  | arrayLiteral => .atomic [.text "[", .list "ITEMS", .text "]"]
  | arrayItem => .statement [.value "VALUE" .comma "\"\"", .text ",\n"]
  | objectLiteral => .atomic [.properties "PROPERTIES"]
  | objectProperty => .statement
      [.field "PROP_NAME" "", .text ": ", .value "VALUE" .comma "\"\"", .text ","]
  | objectPropertyAccess => ⟨.expression .member,
      [.value "OBJECT" .member "null", .text ".", .field "PROPERTY" ""]⟩
  | objectBracketAccess => ⟨.expression .member,
      [.value "OBJECT" .member "null", .text "[", .value "PROPERTY" .none "\"property\"", .text "]"]⟩
  | arrayIndexAccess => ⟨.expression .member,
      [.value "ARRAY" .member "[]", .text "[", .value "INDEX" .none "0", .text "]"]⟩
  | functionCall => ⟨.expression .functionCall,
      [.callee "FUNCTION_NAME" .atomic "undefined", .text "(", .arguments, .text ")"]⟩
  | functionParams => .statement [.parameters "PARAMS"]
  | functionParameter => .statement [.value "PARAM_VALUE" .comma "\"\"", .text ","]
  | custom name => .atomic [.literal name]

/-- A kind is a statement exactly when its code is one. -/
theorem BlockKind.shape_eq_statement_iff (kind : BlockKind) :
    kind.template.shape = .statement ↔ kind.isStatement = true := by
  cases kind <;> simp [template, isStatement, Template.statement, Template.atomic, Template.binary]

end BlockProgram
