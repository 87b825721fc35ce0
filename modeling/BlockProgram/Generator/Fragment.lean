import BlockProgram.Text.Blank

/-!
Fragments of code as they are cut before they are joined: items lose their separators, and the name
of a called function loses the quotes or parentheses around it.
-/

namespace BlockProgram
namespace Text

/-- The text without one comma at its end. -/
def dropComma (text : Text) : Text :=
  if text.getLast? = some ',' then text.dropLast else text

/-- An item without the separator and the white space around it. -/
def bareItem (item : Text) : Text :=
  trim (dropComma (trim item))

/-- Items separated by a comma and a space; blank ones are left out. -/
def commaSeparated (items : List Text) : Text :=
  [',', ' '].intercalate ((items.map bareItem).filter fun item => !item.isEmpty)

/-- Properties between braces, each with its own comma; blank ones are left out. -/
def braced (items : List Text) : Text :=
  let properties := (items.map trim).filter fun item => !item.isEmpty
  if properties.isEmpty then ['{', '}']
  else ['{', ' '] ++ [' '].intercalate properties ++ [' ', '}']

/-- The text between `opening` and `closing`, if they are its first and its last character. -/
def between? (opening closing : Char) : Text → Option Text
  | [] => none
  | c :: rest => if c = opening ∧ rest.getLast? = some closing then some rest.dropLast else none

/-- The trimmed text inside one pair of delimiters; without such a pair, the text itself. -/
def unwrap (opening closing : Char) (text : Text) : Text :=
  match between? opening closing text with
  | some inner => trim inner
  | none => text

/-- The name of a called function: the trimmed text without one pair of quotes around it and then
without one pair of parentheses. -/
def bareCallee (text : Text) : Text :=
  unwrap '(' ')' (unwrap '"' '"' (trim text))

/-- A text between parentheses. -/
def parenthesize (text : Text) : Text :=
  '(' :: (text ++ [')'])

end Text
end BlockProgram
