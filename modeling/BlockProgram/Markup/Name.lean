import BlockProgram.Markup.Token

/-!
Names and references. A qualified name is a name, or two with a colon between them of which the first is
a prefix. Names under construction are reversed texts.
-/

namespace BlockProgram
namespace Markup

/-- A name with its prefix, which is empty when there is none. -/
structure QName where
  space : String
  name : String
  deriving DecidableEq, Repr, Inhabited

/-! ### Names -/

/-- A name with one more character. -/
def extendName? (name : Text) (c : Char) : Option Text :=
  if (if name.isEmpty then isNameStart c else isNameChar c) then some (c :: name) else none

/-- A qualified name with one more character. One colon may stand in it, and any character of names may
follow that. -/
def extendQName? (name : Text) (c : Char) : Option Text :=
  if c = ':' && (name.isEmpty || name.contains ':') then none else extendName? name c

/-- Whether a name is not too long. -/
def fitsName (reversed : Text) : Bool :=
  reversed.tail.foldl (fun size c => size + c.utf8Size) 0 ≤ maxNameSize

/-- The qualified name of a reversed text, whose parts must not be empty. -/
def qname? (reversed : Text) : Option QName :=
  let text := reversed.reverse
  let first := text.takeWhile (· ≠ ':')
  if first.isEmpty || !fitsName reversed then none
  else
    match text.dropWhile (· ≠ ':') with
    | [] => some ⟨"", String.ofList first⟩
    | _ :: [] => none
    | _ :: rest => some ⟨String.ofList first, String.ofList rest⟩

/-! ### References -/

/-- The value of a text of digits in a base, which may have a plus sign before it; `none` if it has no
digits or others. -/
def digits? (base : Nat) (text : Text) : Option Nat :=
  let digits := match text with
    | '+' :: rest => rest
    | _ => text
  if digits.isEmpty then none
  else digits.foldlM (fun n c =>
    let digit? :=
      if '0' ≤ c ∧ c ≤ '9' then some (c.toNat - '0'.toNat)
      else if 'a' ≤ c ∧ c ≤ 'f' then some (c.toNat - 'a'.toNat + 10)
      else if 'A' ≤ c ∧ c ≤ 'F' then some (c.toNat - 'A'.toNat + 10)
      else none
    digit?.bind fun d => if d < base then some (base * n + d) else none) 0

/-- The character whose code point a text gives, if documents may hold it. A code point in base sixteen
follows an `x`. -/
def numbered? (version : Version) (text : Text) : Option Char := do
  let n ← match text with
    | 'x' :: digits => digits? 16 digits
    | digits => digits? 10 digits
  if n.isValidChar && isAllowed version (Char.ofNat n) then some (Char.ofNat n) else none

/-- The characters that have names in every document. -/
def namedChars : List (Text × Char) :=
  [("lt".toList, '<'), ("gt".toList, '>'), ("amp".toList, '&'), ("apos".toList, '\''),
    ("quot".toList, '"')]

/-- The character that a reference stands for in every document. -/
def referenced? (version : Version) (name : Text) : Option Char :=
  match name with
  | '#' :: text => numbered? version text
  | _ => namedChars.lookup name

end Markup
end BlockProgram
