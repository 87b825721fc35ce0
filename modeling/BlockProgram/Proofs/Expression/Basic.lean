import BlockProgram.Block.Template
import BlockProgram.Generator.Fragment
import BlockProgram.Proofs.Text.Quoted

/-!
Expressions of the generated language: numbers, booleans, quoted texts and variables, put together by
binary operators, `!`, `.name` and `[e]`. `Expression.text` writes a tree with parentheses where, and
only where, an operand binds less tightly than its place asks.

Names and numerals carry the proof that they are well formed, so that every tree can be written.
-/

namespace BlockProgram

/-! ### Operators -/

/-- The binary operators. -/
inductive Operator where
  | add
  | subtract
  | multiply
  | divide
  | both
  | either
  | greater
  | less
  | equal
  | unequal
  | atLeast
  | atMost
  deriving DecidableEq, Repr

namespace Operator

/-- The kind of block that stands for an operator. -/
def kind : Operator → BlockKind
  | add => .anyConcat
  | subtract => .mathSubtract
  | multiply => .mathMultiply
  | divide => .mathDivide
  | both => .logicAnd
  | either => .logicOr
  | greater => .comparisonGt
  | less => .comparisonLt
  | equal => .comparisonEq
  | unequal => .comparisonNeq
  | atLeast => .comparisonGte
  | atMost => .comparisonLte

def symbol : Operator → String
  | add => "+"
  | subtract => "-"
  | multiply => "*"
  | divide => "/"
  | both => "&&"
  | either => "||"
  | greater => ">"
  | less => "<"
  | equal => "=="
  | unequal => "!="
  | atLeast => ">="
  | atMost => "<="

def order : Operator → Order
  | add => .addition
  | subtract => .subtraction
  | multiply => .multiplication
  | divide => .division
  | both => .logicalAnd
  | either => .logicalOr
  | greater | less | atLeast | atMost => .relational
  | equal | unequal => .equality

def rank (op : Operator) : Nat :=
  op.order.rank

/-- What an operator has on a side that is left empty. -/
def placeholder : Operator → String
  | add => "\"\""
  | both => "true"
  | either => "false"
  | _ => "0"

/-- The block of an operator is written with its symbol between two sockets of its own order. -/
theorem template_kind (op : Operator) :
    op.kind.template = .binary op.symbol op.order op.placeholder := by
  cases op <;> rfl

/-- Every operator binds less tightly than `!`. -/
theorem rank_lt_not (op : Operator) : op.rank < Order.logicalNot.rank := by
  cases op <;> decide

end Operator

/-! ### Words -/

namespace Text

/-- The characters of names and numbers: letters, digits, `_`, `$` and all that is not ASCII, white
space excepted. -/
def isWordChar (c : Char) : Bool :=
  !isBlankChar c && (c.isAlphanum || c = '_' || c = '$' || 128 ≤ c.toNat)

/-- A non-empty text of digits. -/
def IsNumeral (word : Text) : Prop :=
  word ≠ [] ∧ ∀ c ∈ word, c.isDigit = true

/-- A non-empty text of word characters that does not start with a digit. -/
def IsIdentifier (word : Text) : Prop :=
  word ≠ [] ∧ (∀ c ∈ word, isWordChar c = true) ∧ ∀ c ∈ word.head?, c.isDigit = false

/-- An identifier that is neither of the two boolean literals. -/
def IsVariable (word : Text) : Prop :=
  IsIdentifier word ∧ word ≠ "true".toList ∧ word ≠ "false".toList

instance (word : Text) : Decidable (IsNumeral word) :=
  decidable_of_iff (word ≠ [] ∧ word.all Char.isDigit = true) (by simp [IsNumeral])

instance (word : Text) : Decidable (IsIdentifier word) :=
  decidable_of_iff
    (word ≠ [] ∧ word.all isWordChar = true ∧ word.head?.all (fun c => !c.isDigit) = true)
    (by simp [IsIdentifier, Option.all_eq_true])

instance (word : Text) : Decidable (IsVariable word) := inferInstanceAs (Decidable (_ ∧ _ ∧ _))

theorem isWordChar_of_isDigit {c : Char} (h : c.isDigit = true) : isWordChar c = true := by
  have hrange : 48 ≤ c.toNat ∧ c.toNat ≤ 57 := by
    simpa [Char.isDigit, UInt32.le_iff_toNat_le] using h
  have hblank : isBlankChar c = false := by
    simp only [isBlankChar, blankRanges, List.any_cons, List.any_nil, Bool.or_false,
      Bool.or_eq_false_iff, Bool.and_eq_false_iff, decide_eq_false_iff_not]
    omega
  simp [isWordChar, hblank, Char.isAlphanum, h]

/-- A numeral starts with a digit. -/
theorem IsNumeral.head_isDigit {word : Text} (h : IsNumeral word) :
    ∃ c rest, word = c :: rest ∧ c.isDigit = true := by
  obtain ⟨c, rest, rfl⟩ := List.exists_cons_of_ne_nil h.1
  exact ⟨c, rest, rfl, h.2 c (List.mem_cons_self ..)⟩

theorem IsNumeral.word {word : Text} (h : IsNumeral word) : ∀ c ∈ word, isWordChar c = true :=
  fun c hc => isWordChar_of_isDigit (h.2 c hc)

/-- No numeral is an identifier. -/
theorem IsIdentifier.not_isNumeral {word : Text} (h : IsIdentifier word) : ¬ IsNumeral word := by
  intro hnum
  obtain ⟨c, rest, rfl, hdigit⟩ := hnum.head_isDigit
  have := h.2.2 c (by simp)
  rw [hdigit] at this
  cases this

theorem isIdentifier_true : IsIdentifier "true".toList := by decide

theorem isIdentifier_false : IsIdentifier "false".toList := by decide

end Text

abbrev Numeral := { word : Text // Text.IsNumeral word }

abbrev Identifier := { word : Text // Text.IsIdentifier word }

abbrev VariableName := { word : Text // Text.IsVariable word }

/-! ### Trees -/

/-- An expression tree. -/
inductive Expression where
  | number (digits : Numeral)
  | boolean (value : Bool)
  | string (text : Text)
  | var (name : VariableName)
  | binary (op : Operator) (left right : Expression)
  | not (operand : Expression)
  | property (object : Expression) (name : Identifier)
  | index (object subscript : Expression)
  deriving DecidableEq, Repr

namespace Expression

/-- How tightly the outermost construct of a tree binds. -/
def order : Expression → Order
  | binary op _ _ => op.order
  | not _ => .logicalNot
  | property .. | index .. => .member
  | _ => .atomic

def rank (e : Expression) : Nat :=
  e.order.rank

/-- The word of a boolean literal. -/
def booleanWord (value : Bool) : Text :=
  if value then "true".toList else "false".toList

/-- A text of a given order as it stands in a place that asks for `requested`. -/
def guarded (requested order : Order) (text : Text) : Text :=
  if order.needsParens requested then Text.parenthesize text else text

/-- The text of a tree. -/
def text : Expression → Text
  | number digits => digits.1
  | boolean value => booleanWord value
  | string text => Text.quote text
  | var name => name.1
  | binary op left right =>
    guarded op.order left.order left.text ++ (" " ++ op.symbol ++ " ").toList ++
      guarded op.order right.order right.text
  | not operand => "!(".toList ++ operand.text ++ ")".toList
  | property object name => guarded .member object.order object.text ++ ".".toList ++ name.1
  | index object subscript =>
    guarded .member object.order object.text ++ "[".toList ++ subscript.text ++ "]".toList

theorem booleanWord_isIdentifier (value : Bool) : Text.IsIdentifier (booleanWord value) := by
  cases value
  · exact Text.isIdentifier_false
  · exact Text.isIdentifier_true

end Expression
end BlockProgram
