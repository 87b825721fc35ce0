import BlockProgram.Markup.Basic

/-!
Elements as text, each on its own line and indented by two spaces for each element around it. An
element without children is written as one tag.
-/

namespace BlockProgram
namespace Markup

/-- The characters that stand for `c` in an attribute. -/
def escapeChar (c : Char) : Text :=
  match c with
  | '<' => "&lt;".toList
  | '>' => "&gt;".toList
  | '"' => "&quot;".toList
  | '\'' => "&apos;".toList
  | '&' => "&amp;".toList
  | '\n' => "&#xA;".toList
  | '\r' => "&#xD;".toList
  | c => [c]

/-- An attribute with the space before it. -/
def attributeText (attr : String × String) : Text :=
  ' ' :: attr.1.toList ++ ['=', '"'] ++ attr.2.toList.flatMap escapeChar ++ ['"']

/-- The start of a line at a depth. -/
def newLine (depth : Nat) : Text :=
  '\n' :: List.replicate (2 * depth) ' '

mutual

/-- An element at a depth. -/
def elementText (depth : Nat) : Element → Text
  | .mk name attributes children =>
    let tag := '<' :: name.toList ++ attributes.flatMap attributeText
    if children.isEmpty then tag ++ [' ', '/', '>']
    else
      tag ++ ['>'] ++ childrenText (depth + 1) children ++ newLine depth ++ ['<', '/'] ++
        name.toList ++ ['>']

/-- Elements at a depth, each after a line break. -/
def childrenText (depth : Nat) : List Element → Text
  | [] => []
  | child :: rest => newLine depth ++ elementText depth child ++ childrenText depth rest

end

/-- An element as a document. -/
def write (element : Element) : String :=
  String.ofList (elementText 0 element)

end Markup
end BlockProgram
