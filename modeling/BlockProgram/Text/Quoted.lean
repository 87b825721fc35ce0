import BlockProgram.Text.Blank

/-!
Double-quoted literals of the generated language. The quote, the backslash and the three control
characters that would break a line or a column are escaped; every other character stands for itself.
-/

namespace BlockProgram
namespace Text

/-- The characters that stand for `c` inside a quoted literal. -/
def escape (c : Char) : Text :=
  match c with
  | '"' => ['\\', '"']
  | '\\' => ['\\', '\\']
  | '\n' => ['\\', 'n']
  | '\r' => ['\\', 'r']
  | '\t' => ['\\', 't']
  | c => [c]

/-- A text as a quoted literal. -/
def quote (text : Text) : Text :=
  '"' :: (text.flatMap escape ++ ['"'])

end Text
end BlockProgram
