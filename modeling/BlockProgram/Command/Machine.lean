/-!
What the command needs of the machine it runs on, and paths as it understands them. A path is a list of
parts between slashes; empty parts and single dots mean nothing, except that a path that ends in one
can only name a directory.
-/

namespace BlockProgram

/-- A path as it was given, and its parts. -/
structure PathName where
  text : String
  isAbsolute : Bool
  parts : List String
  /-- Whether the path can only name a directory. -/
  isDirectory : Bool
  deriving DecidableEq, Repr

namespace PathName

/-- The pieces of a text between slashes. -/
def split (text : List Char) : List (List Char) :=
  text.foldr (fun c parts => if c = '/' then [] :: parts else (c :: parts.headD []) :: parts.tail) [[]]

/-- Whether a piece between slashes means nothing. -/
def isIdle (piece : List Char) : Bool :=
  piece.isEmpty || piece = ['.']

def parse (text : String) : PathName :=
  let pieces := split text.toList
  let last := pieces.getLast?.getD []
  { text
    isAbsolute := text.startsWith "/"
    parts := (pieces.filter fun piece => !isIdle piece).map String.ofList
    isDirectory := isIdle last || last = ['.', '.'] }

/-- The text of a path up to its last part, without what means nothing before and after that. -/
def directoryText (text : List Char) : List Char :=
  let last := (split text).reverse.dropWhile isIdle
  ['/'].intercalate (last.tail.dropWhile isIdle).reverse

/-- The directory that holds what a path names; `none` for a single part and for no part at all. -/
def directory? (path : PathName) : Option PathName :=
  if path.parts.length ≤ 1 then none
  else
    some
      { text := String.ofList (directoryText path.text.toList)
        isAbsolute := path.isAbsolute
        parts := path.parts.dropLast
        isDirectory := true }

/-- The directory that paths start from. -/
def here : PathName :=
  { text := ".", isAbsolute := false, parts := [], isDirectory := true }

/-- The directory that holds what a path names. -/
def directory (path : PathName) : PathName :=
  path.directory?.getD here

end PathName

/-- What the command asks of its machine. Files are written as drafts: under names of their own, beside
the files whose places they take once they are complete. -/
class Machine (m : Type → Type) where
  /-- What stands for a draft. -/
  Draft : Type
  /-- The canonical path of a file, if there is one under a path. -/
  locate : PathName → m (Option String)
  /-- The text of a file; `none` if it cannot be read or is not text. -/
  read : PathName → m (Option String)
  /-- Creates a directory and those around it as far as they are missing; whether it then exists. -/
  makeDirectory : PathName → m Bool
  /-- Creates an empty file under a new name in a directory; `none` if it cannot. -/
  createDraft : PathName → m (Option Draft)
  /-- Writes a text into a draft; whether all of it was written. -/
  fillDraft : Draft → String → m Bool
  /-- Puts a draft in the place of whatever file a path names; whether it could. -/
  moveDraft : Draft → PathName → m Bool
  /-- Removes a draft. -/
  removeDraft : Draft → m Unit
  /-- Tells the user how far the command has come. -/
  report : String → m Unit
  /-- Writes text to the standard output. -/
  print : String → m Unit

end BlockProgram
