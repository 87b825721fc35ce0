import BlockProgram.Command.Run

/-!
The command line. The command itself is `Command.run`; here it runs on the real file system and the
real output streams.
-/

namespace BlockProgram

/-- The result of an action, or `other` when the system refuses it. -/
def orElse {α : Type} (action : IO α) (other : α) : IO α :=
  try action catch _ => pure other

/-- Creates an empty file under a new name in a directory, in so many attempts. -/
def createDraftFile (directory : PathName) : Nat → IO (Option String)
  | 0 => return none
  | attempts + 1 => do
    let draft := directory.text ++ "/.tmp" ++ toString (← IO.rand 100000 999999)
    if ← orElse (do let _ ← IO.FS.Handle.mk draft .writeNew; return true) false then return some draft
    else createDraftFile directory attempts

instance : Machine IO where
  Draft := String
  locate path :=
    orElse (do
      let _ ← IO.FS.readBinFile path.text
      return some (← IO.FS.realPath path.text).toString) none
  read path := orElse (some <$> IO.FS.readFile path.text) none
  makeDirectory path := orElse (do IO.FS.createDirAll path.text; return true) false
  createDraft directory := createDraftFile directory 100
  fillDraft draft text := orElse (do IO.FS.writeFile draft text; return true) false
  moveDraft draft path := orElse (do IO.FS.rename draft path.text; return true) false
  removeDraft draft := orElse (IO.FS.removeFile draft) ()
  report line := IO.eprint line
  print text := IO.print text

/-- How the command is called. -/
def usage : String :=
  "Usage: INPUT [OUTPUT] [--literal TYPE:LABEL:VALUE]... [--indent N] [--emit-blocks PATH] " ++
    "[--emit-toolbox PATH]"

/-- An error as it is shown: its outermost text, then what caused it. -/
def errorText (messages : List String) : String :=
  "Error: " ++ "\n  caused by: ".intercalate messages

end BlockProgram

open BlockProgram in
def main (arguments : List String) : IO UInt32 := do
  match Arguments.parse? arguments with
  | none =>
    IO.eprintln usage
    return 2
  | some args =>
    match ← (Command.run (m := IO) args).run with
    | .ok () => return 0
    | .error e =>
      IO.eprintln (errorText e.messages)
      return 1
