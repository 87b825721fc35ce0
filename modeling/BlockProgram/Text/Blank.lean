/-!
Text is a list of characters, the form in which it is cut, trimmed and joined.

A character is blank when Unicode gives it the property White_Space; that set decides what trimming
removes and which lines count as empty. It is wider than the ASCII blanks (`'\u00a0'` and `'\u3000'`
belong to it) and leaves out the zero-width space `'\u200b'` and the byte order mark `'\ufeff'`.
-/

namespace BlockProgram

/-- A text as the list of its characters. -/
abbrev Text := List Char

namespace Text

/-- The code points of the White_Space property, as closed ranges. -/
def blankRanges : List (Nat × Nat) :=
  [(0x09, 0x0d), (0x20, 0x20), (0x85, 0x85), (0xa0, 0xa0), (0x1680, 0x1680), (0x2000, 0x200a),
   (0x2028, 0x2029), (0x202f, 0x202f), (0x205f, 0x205f), (0x3000, 0x3000)]

/-- Whether a character is white space. -/
def isBlankChar (c : Char) : Bool :=
  blankRanges.any fun range => range.1 ≤ c.toNat && c.toNat ≤ range.2

/-- Whether a text holds nothing but white space. -/
def isBlank (text : Text) : Bool :=
  text.all isBlankChar

/-- The text without its leading white space. -/
def trimStart (text : Text) : Text :=
  text.dropWhile isBlankChar

/-- The text without its trailing white space. -/
def trimEnd (text : Text) : Text :=
  (text.reverse.dropWhile isBlankChar).reverse

/-- The text without the white space at either end. -/
def trim (text : Text) : Text :=
  trimEnd (trimStart text)

/-! ### Small facts -/

theorem newline_blank : isBlankChar '\n' = true := by decide

theorem space_blank : isBlankChar ' ' = true := by decide

theorem tab_blank : isBlankChar '\t' = true := by decide

end Text

end BlockProgram
