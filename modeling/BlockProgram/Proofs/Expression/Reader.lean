import BlockProgram.Proofs.Expression.Basic

/-!
Reading expressions back. Text is cut into tokens, and the tokens are read from left to right with a
stack of constructs that wait for an operand.

```text
            word, string                 operator
  operand ───────────────▶ value ───────────────────────▶ operand
  ! ( ↺                    ) ] ↺   .  ▶ name ──word──▶ value
                             [ ──────────────────────────▶ operand
```

A binary operator first closes all that binds at least as tightly, so operators of equal rank group to
the left; `!` waits for its operand, and `.name` and `[e]` take the value before them as it is.
-/

namespace BlockProgram
namespace Expression

open Text

/-! ### Tokens -/

/-- A token of an expression. -/
inductive Token where
  | word (word : Text)
  | string (text : Text)
  | operator (op : Operator)
  | bang
  | dot
  | openGroup
  | closeGroup
  | openIndex
  | closeIndex
  deriving DecidableEq, Repr

/-- The punctuation that a text starts with, the longest there is, and the text after it. -/
def mark? : Text → Option (Token × Text)
  | '&' :: '&' :: rest => some (.operator .both, rest)
  | '|' :: '|' :: rest => some (.operator .either, rest)
  | '=' :: '=' :: rest => some (.operator .equal, rest)
  | '!' :: '=' :: rest => some (.operator .unequal, rest)
  | '>' :: '=' :: rest => some (.operator .atLeast, rest)
  | '<' :: '=' :: rest => some (.operator .atMost, rest)
  | '>' :: rest => some (.operator .greater, rest)
  | '<' :: rest => some (.operator .less, rest)
  | '+' :: rest => some (.operator .add, rest)
  | '-' :: rest => some (.operator .subtract, rest)
  | '*' :: rest => some (.operator .multiply, rest)
  | '/' :: rest => some (.operator .divide, rest)
  | '!' :: rest => some (.bang, rest)
  | '.' :: rest => some (.dot, rest)
  | '(' :: rest => some (.openGroup, rest)
  | ')' :: rest => some (.closeGroup, rest)
  | '[' :: rest => some (.openIndex, rest)
  | ']' :: rest => some (.closeIndex, rest)
  | _ => none

theorem length_mark?_lt {text more : Text} {token : Token} (h : mark? text = some (token, more)) :
    more.length < text.length := by
  unfold mark? at h
  split at h <;> cases h <;> simp only [List.length_cons] <;> omega

/-- The tokens of a text; blanks separate them and are otherwise ignored. -/
def tokens? (text : Text) : Option (List Token) :=
  match text with
  | [] => some []
  | c :: rest =>
    if isBlankChar c then tokens? rest
    else if isWordChar c then
      (tokens? (rest.dropWhile isWordChar)).map (.word (c :: rest.takeWhile isWordChar) :: ·)
    else if c = '"' then
      match _h : closeQuote? rest with
      | none => none
      | some (literal, more) => (tokens? more).map (.string literal :: ·)
    else
      match _h : mark? (c :: rest) with
      | none => none
      | some (token, more) => (tokens? more).map (token :: ·)
termination_by text.length
decreasing_by
  · simp
  · have := (List.dropWhile_suffix isWordChar (l := rest)).length_le
    simp only [List.length_cons]
    omega
  · have := length_closeQuote?_lt _h
    simp only [List.length_cons]
    omega
  · exact length_mark?_lt _h

/-! ### Reading tokens -/

/-- The operand that a word is by itself. -/
def ofWord? (word : Text) : Option Expression :=
  if h : IsNumeral word then some (.number ⟨word, h⟩)
  else if word = booleanWord true then some (.boolean true)
  else if word = booleanWord false then some (.boolean false)
  else if h : IsVariable word then some (.var ⟨word, h⟩)
  else none

/-- A construct that waits for an expression. -/
inductive Pending where
  | binary (left : Expression) (op : Operator)
  | not
  | group
  | index (object : Expression)
  deriving DecidableEq, Repr

/-- What a reader has in hand: nothing, a value, or a value and the dot after it. -/
inductive Focus where
  | operand
  | value (e : Expression)
  | name (object : Expression)
  deriving DecidableEq, Repr

/-- A reader: what waits, the innermost first, and what is in hand. -/
structure Reader where
  pending : List Pending := []
  focus : Focus := .operand
  deriving DecidableEq, Repr

/-- Closes all that waits and binds at least as tightly as `rank`, up to the nearest open bracket. -/
def close (rank : Nat) : List Pending → Expression → List Pending × Expression
  | .binary left op :: rest, e =>
    if rank ≤ op.rank then close rank rest (.binary op left e) else (.binary left op :: rest, e)
  | .not :: rest, e =>
    if rank ≤ Order.logicalNot.rank then close rank rest (.not e) else (.not :: rest, e)
  | pending, e => (pending, e)

/-- What a reader becomes at a token. -/
def Reader.step : Reader → Token → Option Reader
  | ⟨pending, .operand⟩, .word word => (ofWord? word).map fun e => ⟨pending, .value e⟩
  | ⟨pending, .operand⟩, .string text => some ⟨pending, .value (.string text)⟩
  | ⟨pending, .operand⟩, .bang => some ⟨.not :: pending, .operand⟩
  | ⟨pending, .operand⟩, .openGroup => some ⟨.group :: pending, .operand⟩
  | ⟨pending, .value e⟩, .operator op =>
    let (rest, left) := close op.rank pending e
    some ⟨.binary left op :: rest, .operand⟩
  | ⟨pending, .value e⟩, .dot => some ⟨pending, .name e⟩
  | ⟨pending, .name object⟩, .word word =>
    if h : IsIdentifier word then some ⟨pending, .value (.property object ⟨word, h⟩)⟩ else none
  | ⟨pending, .value e⟩, .openIndex => some ⟨.index e :: pending, .operand⟩
  | ⟨pending, .value e⟩, .closeGroup =>
    match close Order.none.rank pending e with
    | (.group :: rest, inner) => some ⟨rest, .value inner⟩
    | _ => none
  | ⟨pending, .value e⟩, .closeIndex =>
    match close Order.none.rank pending e with
    | (.index object :: rest, subscript) => some ⟨rest, .value (.index object subscript)⟩
    | _ => none
  | _, _ => none

/-- What a reader becomes at tokens, one after the other. -/
def Reader.run (reader : Reader) (tokens : List Token) : Option Reader :=
  tokens.foldlM Reader.step reader

/-- The tree that a reader has read when the text ends. -/
def Reader.tree? : Reader → Option Expression
  | ⟨pending, .value e⟩ =>
    match close Order.none.rank pending e with
    | ([], tree) => some tree
    | _ => none
  | _ => none

/-- The tree that a text stands for. -/
def read? (text : Text) : Option Expression := do
  let tokens ← tokens? text
  let reader ← Reader.run {} tokens
  reader.tree?

end Expression
end BlockProgram
