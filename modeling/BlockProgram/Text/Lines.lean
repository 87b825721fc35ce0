import BlockProgram.Text.Blank

/-!
Lines of program text. A newline ends a line, so a text with `n` newlines has `n + 1` lines, the last
of which may be empty.

* `terminate` closes each line that is not blank and does not already end in `;`, `{` or `}`;
* `indentLines` puts an indent before each line, a last empty one excepted;
* `tidy` drops the blank lines around a text and the spaces and tabs before each newline.

Each is a right fold over the characters or a map over the lines.
-/

namespace BlockProgram
namespace Text

/-- One step of `lines`: a newline opens a line, any other character joins the line after it. -/
def addToLines (c : Char) (rest : List Text) : List Text :=
  if c = '\n' then [] :: rest else (c :: rest.headD []) :: rest.tail

/-- The lines of a text, without their newlines. -/
def lines (text : Text) : List Text :=
  text.foldr addToLines [[]]

/-- The lines joined by newlines. -/
def unlines (ls : List Text) : Text :=
  ['\n'].intercalate ls

/-! ### Terminated lines -/

/-- The characters that close a line of code. -/
def isTerminator (c : Char) : Bool :=
  c = ';' || c = '{' || c = '}'

/-- Whether a line is blank or closed, whatever white space follows. -/
def isTerminated (line : Text) : Bool :=
  match (trimEnd line).getLast? with
  | none => true
  | some c => isTerminator c

/-- The line itself if it is terminated, else with a `;` at its end. -/
def terminateLine (line : Text) : Text :=
  if isTerminated line then line else line ++ [';']

/-- Terminates every line of a text. -/
def terminate (text : Text) : Text :=
  unlines ((lines text).map terminateLine)

/-! ### Indented lines -/

/-- One step of `indentAfterNewlines`: a newline has the indent after it unless it ends the text. -/
def addIndented (indent : Text) (c : Char) (rest : Text) : Text :=
  if c = '\n' ∧ !rest.isEmpty then c :: (indent ++ rest) else c :: rest

/-- Puts `indent` after each newline, a last one excepted. -/
def indentAfterNewlines (indent text : Text) : Text :=
  text.foldr (addIndented indent) []

/-- Puts `indent` before each line. -/
def indentLines (indent text : Text) : Text :=
  if text.isEmpty then [] else indent ++ indentAfterNewlines indent text

/-- One step of `inclusiveLines`: a newline ends a line and stays in it. -/
def addToInclusiveLines (c : Char) (rest : List Text) : List Text :=
  if c = '\n' then [c] :: rest else (c :: rest.headD []) :: rest.tail

/-- The lines of a text, each with its newline; an empty last line is none. -/
def inclusiveLines (text : Text) : List Text :=
  text.foldr addToInclusiveLines []

@[simp]
theorem inclusiveLines_cons (c : Char) (text : Text) :
    inclusiveLines (c :: text) = addToInclusiveLines c (inclusiveLines text) := rfl

@[simp]
theorem indentAfterNewlines_cons (indent : Text) (c : Char) (text : Text) :
    indentAfterNewlines indent (c :: text) =
      addIndented indent c (indentAfterNewlines indent text) := rfl

theorem isEmpty_indentAfterNewlines (indent text : Text) :
    (indentAfterNewlines indent text).isEmpty = text.isEmpty := by
  cases text with
  | nil => rfl
  | cons c rest => simp only [indentAfterNewlines_cons, addIndented]; split <;> rfl

/-- Indenting a text puts the indent before each of its lines. -/
theorem indentLines_eq_flatMap (indent text : Text) :
    indentLines indent text = (inclusiveLines text).flatMap (indent ++ ·) := by
  induction text with
  | nil => rfl
  | cons c rest ih =>
    match rest with
    | [] => by_cases h : c = '\n' <;>
        simp [indentLines, indentAfterNewlines, inclusiveLines, addIndented, addToInclusiveLines, h]
    | d :: rest =>
      have hempty := isEmpty_indentAfterNewlines indent (d :: rest)
      have hlines : inclusiveLines (d :: rest) ≠ [] := by
        simp only [inclusiveLines_cons, addToInclusiveLines]
        split <;> simp
      rw [indentLines, if_neg (by simp)] at ih
      rw [inclusiveLines_cons c, indentLines, if_neg (by simp), indentAfterNewlines_cons indent c]
      generalize indentAfterNewlines indent (d :: rest) = body at *
      generalize inclusiveLines (d :: rest) = ls at *
      obtain ⟨line, more, rfl⟩ := List.exists_cons_of_ne_nil hlines
      by_cases h : c = '\n'
      · have hempty : body.isEmpty = false := hempty
        simp [addIndented, addToInclusiveLines, h, hempty, ← ih, - List.isEmpty_eq_false_iff]
      · simp only [List.flatMap_cons, List.append_assoc, List.append_cancel_left_eq] at ih
        simp [addIndented, addToInclusiveLines, h, ih]

/-! ### Tidy text -/

/-- The text after its last newline; `none` when it has no newline. -/
def afterLastNewline? (text : Text) : Option Text :=
  if '\n' ∈ text then some (text.reverse.takeWhile (· ≠ '\n')).reverse else none

/-- Drops the white space before the first line of code, up to its last newline. A single newline
with no white space before it stays. -/
def dropLeadingBlank (text : Text) : Text :=
  let blank := text.takeWhile isBlankChar
  let code := text.dropWhile isBlankChar
  match afterLastNewline? (blank.drop 1) with
  | none => text
  | some rest => rest ++ code

/-- Drops the white space after the first newline that follows the last line of code. -/
def dropTrailingBlank (text : Text) : Text :=
  let blank := (text.reverse.takeWhile isBlankChar).reverse
  let code := (text.reverse.dropWhile isBlankChar).reverse
  if '\n' ∈ blank then code ++ blank.takeWhile (· ≠ '\n') ++ ['\n'] else text

/-- Drops a space or tab that stands before a newline. -/
def dropBeforeNewline (c : Char) (rest : Text) : Text :=
  if (c = ' ' ∨ c = '\t') ∧ rest.head? = some '\n' then rest else c :: rest

/-- Drops the spaces and tabs before each newline. -/
def dropTrailingSpaces (text : Text) : Text :=
  text.foldr dropBeforeNewline []

/-- A text without blank lines around it and without spaces or tabs before its newlines. -/
def tidy (text : Text) : Text :=
  dropTrailingSpaces (dropTrailingBlank (dropLeadingBlank text))

end Text
end BlockProgram
