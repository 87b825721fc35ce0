import BlockProgram.Text.Blank

/-!
Encodings. A document is a text in UTF-8 until its declaration names another encoding; the bytes of the
characters after the declaration are then read as that one. The single bytes of ISO-8859-1 are the first
256 code points, so a character outside ASCII becomes several, and in ASCII there are no such bytes.
-/

namespace BlockProgram
namespace Markup

/-- The encodings of documents. -/
inductive Encoding where
  | utf8
  | latin1
  | utf16
  | ascii
  deriving DecidableEq, Repr

namespace Encoding

/-- The labels of the encodings, in lower case. -/
def labels : List (String × Encoding) :=
  [("utf-8", .utf8), ("utf8", .utf8), ("iso-8859-1", .latin1), ("latin1", .latin1),
    ("utf-16", .utf16), ("utf16", .utf16), ("ascii", .ascii), ("us-ascii", .ascii)]

/-- The encoding with a label. Label and text are compared, whatever their case, up to the end of the
shorter one, so every beginning of a label counts as that label and so does all that begins with it. -/
def ofLabel? (text : String) : Option Encoding :=
  (labels.find? fun label =>
    (label.1.toList.zip text.toList).all fun pair => pair.1 = pair.2.toLower).map Prod.snd

/-- The characters that the bytes of a character stand for. -/
def respell? (encoding : Encoding) (c : Char) : Option Text :=
  match encoding with
  | .utf8 => some [c]
  | .latin1 => some ((String.utf8EncodeChar c).map fun byte => Char.ofNat byte.toNat)
  | .ascii => if c.toNat < 128 then some [c] else none
  | .utf16 => none

end Encoding
end Markup
end BlockProgram
