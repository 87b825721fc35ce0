import BlockProgram.Markup.Basic

/-!
The tokens of markup, found by an automaton that knows the brackets but not what they mean.

```text
          ┌──────────▶ instruction ──?>──┐
          ?                              ▼
text ──<──▶ opened ──name──────────▶ text, or the document type
          │   └──/─────────────────▶   if that is not over
          !                              ▲
          ├──--──▶ comment ──-->─────────┘
          ├──[CDATA[──▶ data ──]]>──▶ text
          ├──DOCTYPE──▶ document type ──>──▶ text
          └──E, A, N──▶ declaration ──>──▶ document type
```

A character that turns out not to belong to a bracket becomes a token of its own.
-/

namespace BlockProgram
namespace Markup

/-- A token of markup. -/
inductive Token where
  | char (c : Char)
  | quote (c : Char)
  | equals
  | tagStart
  | closingStart
  | tagEnd
  | emptyTagEnd
  | commentStart
  | commentEnd
  | dataStart
  | dataEnd
  | instructionStart
  | instructionEnd
  | doctypeStart
  | declarationStart
  | referenceStart
  | referenceEnd
  deriving DecidableEq, Repr

namespace Token

/-- The characters of a token that is taken as text. The start of a declaration has none, so of a
declaration only what follows is text. -/
def text : Token → Text
  | .char c => [c]
  | .quote c => [c]
  | .equals => ['=']
  | .tagStart => ['<']
  | .closingStart => ['<', '/']
  | .tagEnd => ['>']
  | .emptyTagEnd => ['/', '>']
  | .commentStart => "<!--".toList
  | .commentEnd => "-->".toList
  | .dataStart => "<![CDATA[".toList
  | .dataEnd => "]]>".toList
  | .instructionStart => ['<', '?']
  | .instructionEnd => ['?', '>']
  | .doctypeStart => "<!DOCTYPE".toList
  | .declarationStart => []
  | .referenceStart => ['&']
  | .referenceEnd => [';']

/-- The token of a character that may be a quote or set off a reference. -/
def ofQuoted (c : Char) : Token :=
  if c = '"' ∨ c = '\'' then .quote c
  else if c = '&' then .referenceStart
  else if c = ';' then .referenceEnd
  else .char c

/-- The token of a character that stands alone. -/
def ofSingle (c : Char) : Token :=
  if c = '<' then .tagStart
  else if c = '>' then .tagEnd
  else if c = '=' then .equals
  else ofQuoted c

end Token

/-- What the scanner is inside of. -/
inductive Scanner.Mode where
  | text
  /-- After an opening bracket. -/
  | opened
  /-- After an exclamation mark, until it is clear what begins. -/
  | marked (word : Text)
  /-- A comment, and with how many dashes it ends. -/
  | comment (dashes : Nat)
  /-- Character data, and with how many closing brackets it ends. -/
  | data (brackets : Nat)
  /-- An instruction, and whether it ends with a question mark. -/
  | instruction (asked : Bool)
  /-- After a slash. -/
  | slash
  /-- After one closing bracket or two. -/
  | brackets (count : Nat)
  | doctype
  /-- A declaration of a document type. -/
  | declaration
  /-- A quoted text in such a declaration. -/
  | quoted (quote : Char)
  deriving DecidableEq, Repr

/-- What the scanner is inside of, and whether a document type that has declarations is not over. -/
structure Scanner where
  mode : Scanner.Mode := .text
  inDoctype : Bool := false
  deriving DecidableEq, Repr

namespace Scanner

/-- The mode after what may stand in a document type as well as outside. -/
def home (scanner : Scanner) : Mode :=
  if scanner.inDoctype then .doctype else .text

/-- The scanner in its home mode. -/
def goHome (scanner : Scanner) : Scanner :=
  { scanner with mode := scanner.home }

/-! ### Steps -/

/-- One character between brackets, outside a document type. -/
def stepText (scanner : Scanner) (c : Char) : Scanner × List Token :=
  if c = '<' then ({ scanner with mode := .opened }, [])
  else if c = '/' then ({ scanner with mode := .slash }, [])
  else if c = ']' then ({ scanner with mode := .brackets 1 }, [])
  else ({ scanner with mode := .text }, [.ofSingle c])

/-- One character of a document type. -/
def stepDoctype (scanner : Scanner) (c : Char) : Scanner × List Token :=
  if c = '<' then (⟨.opened, true⟩, [])
  else if c = '>' then (⟨.text, false⟩, [.tagEnd])
  else ({ scanner with mode := .doctype }, [.ofQuoted c])

/-- One character after something else that is over. -/
def stepHome (scanner : Scanner) (c : Char) : Scanner × List Token :=
  if scanner.inDoctype then scanner.stepDoctype c else scanner.stepText c

/-- The character after an opening bracket. -/
def stepOpened (scanner : Scanner) (c : Char) : Option (Scanner × List Token) :=
  if c = '?' then some ({ scanner with mode := .instruction false }, [.instructionStart])
  else if c = '/' then some (scanner.goHome, [.closingStart])
  else if c = '!' then some ({ scanner with mode := .marked [] }, [])
  else if isSpace c || isNameChar c then some (scanner.goHome, [.tagStart, .char c])
  else none

/-- One character after an exclamation mark. -/
def stepMarked (scanner : Scanner) (word : Text) (c : Char) : Option (Scanner × List Token) :=
  let word := word ++ [c]
  if word = "--".toList then some ({ scanner with mode := .comment 0 }, [.commentStart])
  else if word = "[CDATA[".toList then some ({ scanner with mode := .data 0 }, [.dataStart])
  else if word = "DOCTYPE".toList then some ({ scanner with mode := .doctype }, [.doctypeStart])
  else if scanner.inDoctype && [['E'], ['A'], ['N']].contains word then
    some ({ scanner with mode := .declaration }, [.declarationStart, .char c])
  else if ["--", "[CDATA[", "DOCTYPE"].any fun whole => word.isPrefixOf whole.toList then
    some ({ scanner with mode := .marked word }, [])
  else none

/-- One character of a comment. Two dashes stand only at its end. -/
def stepComment (scanner : Scanner) (dashes : Nat) (c : Char) : Option (Scanner × List Token) :=
  match dashes with
  | 0 =>
    if c = '-' then some ({ scanner with mode := .comment 1 }, []) else some (scanner, [.char c])
  | 1 =>
    if c = '-' then some ({ scanner with mode := .comment 2 }, [])
    else some ({ scanner with mode := .comment 0 }, [.char '-', .char c])
  | _ => if c = '>' then some (scanner.goHome, [.commentEnd]) else none

/-- One character of character data, which is text however it looks. -/
def stepData (scanner : Scanner) (brackets : Nat) (c : Char) : Scanner × List Token :=
  if c = ']' then
    if brackets < 2 then ({ scanner with mode := .data (brackets + 1) }, [])
    else (scanner, [.char ']'])
  else if c = '>' ∧ brackets = 2 then ({ scanner with mode := .text }, [.dataEnd])
  else ({ scanner with mode := .data 0 }, List.replicate brackets (.char ']') ++ [.char c])

/-- One character of an instruction. -/
def stepInstruction (scanner : Scanner) (asked : Bool) (c : Char) : Scanner × List Token :=
  let before := if asked then [.char '?'] else []
  if asked ∧ c = '>' then (scanner.goHome, [.instructionEnd])
  else if c = '?' then ({ scanner with mode := .instruction true }, before)
  else ({ scanner with mode := .instruction false }, before ++ [.ofSingle c])

/-- The character after a slash. -/
def stepSlash (scanner : Scanner) (c : Char) : Scanner × List Token :=
  if c = '>' then (scanner.goHome, [.emptyTagEnd])
  else
    let next := scanner.stepHome c
    (next.1, .char '/' :: next.2)

/-- The character after closing brackets outside character data. -/
def stepBrackets (scanner : Scanner) (count : Nat) (c : Char) : Scanner × List Token :=
  if c = ']' then
    if count < 2 then ({ scanner with mode := .brackets (count + 1) }, [])
    else (scanner, [.char ']'])
  else if c = '>' ∧ count = 2 then (scanner.goHome, [.dataEnd])
  else
    let next := scanner.stepText c
    (next.1, List.replicate count (.char ']') ++ next.2)

/-- One character of a declaration in a document type. -/
def stepDeclaration (scanner : Scanner) (c : Char) : Option (Scanner × List Token) :=
  if c = '<' then none
  else if c = '>' then some (scanner.goHome, [.tagEnd])
  else if c = '"' ∨ c = '\'' then some ({ scanner with mode := .quoted c }, [.quote c])
  else some (scanner, [.ofQuoted c])

/-- One character of a quoted text in a declaration. -/
def stepQuoted (scanner : Scanner) (quote : Char) (c : Char) : Scanner × List Token :=
  if c = quote then ({ scanner with mode := .declaration }, [.quote c]) else (scanner, [.char c])

/-- One character: the tokens that end with it. -/
def step (scanner : Scanner) (c : Char) : Option (Scanner × List Token) :=
  match scanner.mode with
  | .text => some (scanner.stepText c)
  | .opened => scanner.stepOpened c
  | .marked word => scanner.stepMarked word c
  | .comment dashes => scanner.stepComment dashes c
  | .data brackets => some (scanner.stepData brackets c)
  | .instruction asked => some (scanner.stepInstruction asked c)
  | .slash => some (scanner.stepSlash c)
  | .brackets count => some (scanner.stepBrackets count c)
  | .doctype => some (scanner.stepDoctype c)
  | .declaration => scanner.stepDeclaration c
  | .quoted quote => some (scanner.stepQuoted quote c)

end Scanner

end Markup
end BlockProgram
