import BlockProgram.Text.Blank

/-!
Markup: trees of elements with attributes. Only the elements are kept; the text between them, comments
and processing instructions mean nothing here.

Markup comes in two versions, which differ in the control characters that a document may hold: the
first allows none but the three that are white space, the second all but the null character. The second
restricts most of them, though: they may not stand in text and values as they are, but only as
references.
-/

namespace BlockProgram

/-- An element: its name without a namespace prefix, its attributes and the elements in it. -/
inductive Element where
  | mk (name : String) (attributes : List (String × String)) (children : List Element)
  deriving Repr, Inhabited

namespace Markup

/-- The versions of markup. -/
inductive Version where
  | first
  | second
  deriving DecidableEq, Repr

/-! ### Classes of characters -/

/-- Whether a code point lies in one of some closed ranges. -/
def inRanges (ranges : List (Nat × Nat)) (c : Char) : Bool :=
  ranges.any fun range => range.1 ≤ c.toNat && c.toNat ≤ range.2

/-- The characters that a document may hold. -/
def isAllowed (version : Version) : Char → Bool :=
  match version with
  | .first =>
    inRanges [(0x9, 0xa), (0xd, 0xd), (0x20, 0xd7ff), (0xe000, 0xfffd), (0x10000, 0x10ffff)]
  | .second => inRanges [(0x1, 0xd7ff), (0xe000, 0xfffd), (0x10000, 0x10ffff)]

/-- The control characters that the second version restricts. -/
def isRestricted : Char → Bool :=
  inRanges [(0x1, 0x8), (0xb, 0xc), (0xe, 0x1f), (0x7f, 0x84), (0x86, 0x9f)]

/-- The characters that may stand in text and values as they are. -/
def isPlain (version : Version) (c : Char) : Bool :=
  isAllowed version c && !(version = .second && isRestricted c)

/-- The white space of markup. -/
def isSpace (c : Char) : Bool :=
  c = ' ' || c = '\t' || c = '\n' || c = '\r'

/-- The characters that a name may start with. -/
def isNameStart : Char → Bool :=
  inRanges [(0x3a, 0x3a), (0x41, 0x5a), (0x5f, 0x5f), (0x61, 0x7a), (0xc0, 0xd6), (0xd8, 0xf6),
    (0xf8, 0x2ff), (0x370, 0x37d), (0x37f, 0x1fff), (0x200c, 0x200d), (0x2070, 0x218f),
    (0x2c00, 0x2fef), (0x3001, 0xd7ff), (0xf900, 0xfdcf), (0xfdf0, 0xfffd), (0x10000, 0xeffff)]

/-- The characters of names. -/
def isNameChar (c : Char) : Bool :=
  isNameStart c ||
    inRanges [(0x2d, 0x2e), (0x30, 0x39), (0xb7, 0xb7), (0x300, 0x36f), (0x203f, 0x2040)] c

/-! ### Limits -/

/-- A name is complete when its last character follows no more than so many bytes of UTF-8. -/
def maxNameSize : Nat := 262144

/-- An attribute may follow so many other attributes of its tag. -/
def maxAttributes : Nat := 65536

/-- So many texts may be put in the place of references before the last of them is read through. -/
def maxExpansions : Nat := 10

/-- A text is put in the place of a reference when no more than so many characters of such texts are
still to be read. -/
def maxExpansionSize : Nat := 1000000

end Markup
end BlockProgram
