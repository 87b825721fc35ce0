import BlockProgram.Markup.Document

/-!
Markup text as elements. Each character goes through the scanner, and the tokens that end with it go
through the document. When the document asks for the text of an entity, that text is read before what
follows.

Entities may refer to one another and even to themselves; the limits on texts in the place of references
make an end of that.
-/

namespace BlockProgram
namespace Markup

/-- A text that is read: what the scanner and the document are inside of. -/
structure Reader where
  scanner : Scanner := {}
  document : Document := {}

namespace Reader

/-- One token, and the text that is to be read after those asked for before. -/
def stepToken (state : Document × Text) (t : Token) : Option (Document × Text) :=
  (state.1.step t).map fun next => (next.1, state.2 ++ next.2)

/-- One character: the reader after it, and the text that is to be read next. -/
def step (reader : Reader) (c : Char) : Option (Reader × Text) := do
  let (scanner, tokens) ← reader.scanner.step c
  let (document, asked) ← tokens.foldlM stepToken (reader.document, [])
  return (⟨scanner, document⟩, asked)

/-- Reads the characters that are pending and then those of the input. `expansions` counts the texts that
were put before the pending ones since those last came from the input. -/
def run (reader : Reader) (input pending : Text) (expansions : Nat) : Option Reader :=
  match pending, input with
  | c :: pending, input =>
    match reader.step c with
    | none => none
    | some (reader, []) => run reader input pending expansions
    | some (reader, asked) =>
      if expansions < maxExpansions ∧ pending.length ≤ maxExpansionSize then
        run reader input (asked ++ pending) (expansions + 1)
      else none
  | [], c :: input =>
    match reader.document.encoding.respell? c with
    | none => none
    | some pending => run reader input pending 0
  | [], [] => some reader
termination_by (input.length, maxExpansions - expansions, pending.length)

/-- The root of a document that ends here. -/
def root? (reader : Reader) : Option Element :=
  if reader.scanner.mode = .text then reader.document.root? else none

end Reader

/-- The root of a document; `none` if it is not markup or not complete. A mark at its start says that it
is in UTF-8. -/
def parse? (source : String) : Option Element :=
  let read := match source.toList with
    | '\ufeff' :: rest => Reader.run { document := { marked := true } } rest [] 0
    | text => Reader.run {} text [] 0
  read.bind Reader.root?

end Markup
end BlockProgram
