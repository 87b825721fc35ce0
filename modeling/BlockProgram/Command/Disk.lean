import BlockProgram.Command.Machine

/-!
A machine as a value: a directory with the files and directories in it, what was printed and what was
reported. Paths are followed from the directory part by part, so two dots lead to the directory above
and every part but the last must be a directory; nothing outside the directory can be reached. A part
that is too long to be a name, and a path that is too long as a whole, leads nowhere.
-/

namespace BlockProgram

/-- What a path can lead to. -/
inductive DiskEntry where
  | file (content : ByteArray)
  | directory

instance : DecidableEq DiskEntry
  | .file a, .file b =>
    letI := ByteArray.instDecidableEq a b
    decidable_of_iff (a = b) (by simp)
  | .file _, .directory | .directory, .file _ => isFalse (by simp)
  | .directory, .directory => isTrue rfl

/-- A directory with what is in it, by the parts of the path that leads there, and the two output
streams. -/
structure Disk where
  /-- The canonical path of the directory itself. -/
  root : String
  entries : List (List String × DiskEntry) := []
  printed : String := ""
  reported : String := ""

namespace Disk

/-- What the parts of a path lead to; no parts at all lead to the directory itself. -/
def get? (disk : Disk) (place : List String) : Option DiskEntry :=
  if place.isEmpty then some .directory else disk.entries.lookup place

def isDirectory (disk : Disk) (place : List String) : Bool :=
  match disk.get? place with
  | some .directory => true
  | _ => false

/-- Puts an entry in the place of another one. -/
def put (disk : Disk) (place : List String) (entry : DiskEntry) : Disk :=
  { disk with
    entries := disk.entries.filter (fun other => other.1 ≠ place) ++ [(place, entry)] }

/-- The bytes that a name may have. -/
def maxNameSize : Nat := 255

/-- The bytes that a path may have. -/
def maxPathSize : Nat := 4095

/-- The bytes of the name under which a new file is kept until it takes its place. -/
def draftNameSize : Nat := 10

/-- Whether a path can lead anywhere: it is not too long and has no null character. -/
def isPath (path : PathName) : Bool :=
  path.text.utf8ByteSize ≤ maxPathSize && !path.text.toList.contains '\x00'

/-- One part further than a place that must be a directory. -/
def follow (disk : Disk) (place : List String) (part : String) : Option (List String) :=
  if !disk.isDirectory place || maxNameSize < part.utf8ByteSize then none
  else if part = ".." then if place.isEmpty then none else some place.dropLast
  else some (place ++ [part])

/-- Where a path leads, if something is there. -/
def resolve? (disk : Disk) (path : PathName) : Option (List String) := do
  if path.isAbsolute || !isPath path then none
  else
    let place ← path.parts.foldlM disk.follow []
    let entry ← disk.get? place
    if path.isDirectory && entry ≠ .directory then none else some place

/-- The content of the file that a path leads to. -/
def file? (disk : Disk) (path : PathName) : Option ByteArray := do
  let place ← disk.resolve? path
  match disk.get? place with
  | some (.file content) => some content
  | _ => none

/-- Goes along the parts of a path and creates the directories that are missing. The directories that
were created stay when a later part is in the way. -/
def makeDirectories (disk : Disk) (place : List String) : List String → Disk × Bool
  | [] => (disk, true)
  | part :: rest =>
    match disk.follow place part with
    | none => (disk, false)
    | some next =>
      match disk.get? next with
      | some .directory => disk.makeDirectories next rest
      | some (.file _) => (disk, false)
      | none => (disk.put next .directory).makeDirectories next rest

/-- Takes away what is in a place. -/
def remove (disk : Disk) (place : List String) : Disk :=
  { disk with entries := disk.entries.filter fun other => other.1 ≠ place }

/-- Whether a new file can be put into a directory. The canonical path of the new file must not be too
long. -/
def takesDraft (disk : Disk) (directory : PathName) : Bool :=
  disk.root.utf8ByteSize + 1 + directory.text.utf8ByteSize + 1 + draftNameSize ≤ maxPathSize

/-- A name for a draft. -/
def draftName (n : Nat) : String :=
  ".tmp" ++ toString (100000 + n)

/-- A place in a directory where nothing is. -/
def freePlace? (disk : Disk) (directory : List String) : Option (List String) :=
  ((List.range (disk.entries.length + 1)).map fun n => directory ++ [draftName n]).find? fun place =>
    (disk.get? place).isNone

/-- Creates an empty file in a directory, and gives its place. -/
def createDraft? (disk : Disk) (directory : PathName) : Option (List String × Disk) := do
  if directory.isAbsolute || !disk.takesDraft directory then none
  else
    let around ← directory.parts.foldlM disk.follow []
    if !disk.isDirectory around then none
    else
      let place ← disk.freePlace? around
      return (place, disk.put place (.file ByteArray.empty))

/-- Writes a text into the file in a place. -/
def fillDraft? (disk : Disk) (draft : List String) (text : String) : Option Disk :=
  match disk.get? draft with
  | some (.file _) => some (disk.put draft (.file text.toUTF8))
  | _ => none

/-- The place that a file gets when it is put under a path. -/
def target? (disk : Disk) (path : PathName) : Option (List String) :=
  if path.isAbsolute || path.isDirectory || !isPath path then none
  else path.parts.foldlM disk.follow []

/-- Puts the file in a place where a path leads, unless that is a directory. -/
def moveDraft? (disk : Disk) (draft : List String) (path : PathName) : Option Disk := do
  let place ← disk.target? path
  if disk.isDirectory place then none
  else
    match disk.get? draft with
    | some (.file content) => some ((disk.remove draft).put place (.file content))
    | _ => none

/-- A disk with given files and directories, and the directories around them. -/
def ofEntries (root : String) (entries : List (String × DiskEntry)) : Disk :=
  entries.foldl
    (fun disk given =>
      let parts := (PathName.parse given.1).parts
      ((disk.makeDirectories [] parts.dropLast).1).put parts given.2)
    { root }

/-- Goes on with the next disk, if there is one; whether there is. -/
def become (disk : Disk) : Option Disk → Bool × Disk
  | none => (false, disk)
  | some next => (true, next)

/-- Goes on with the disk that has a new draft, if there is one; the place of the draft. -/
def becomeWith (disk : Disk) : Option (List String × Disk) → Option (List String) × Disk
  | none => (none, disk)
  | some (draft, next) => (some draft, next)

end Disk

instance : Machine (StateM Disk) where
  Draft := List String
  locate path := do
    let disk ← get
    return (disk.file? path).bind fun _ =>
      (disk.resolve? path).map fun place => "/".intercalate (disk.root :: place)
  read path := do
    return ((← get).file? path).bind String.fromUTF8?
  makeDirectory path := modifyGet fun disk =>
    if path.isAbsolute || !Disk.isPath path then (false, disk)
    else (disk.makeDirectories [] path.parts).swap
  createDraft directory := modifyGet fun disk => disk.becomeWith (disk.createDraft? directory)
  fillDraft draft text := modifyGet fun disk => disk.become (disk.fillDraft? draft text)
  moveDraft draft path := modifyGet fun disk => disk.become (disk.moveDraft? draft path)
  removeDraft draft := modify fun disk => disk.remove draft
  report line := modify fun disk => { disk with reported := disk.reported ++ line }
  print text := modify fun disk => { disk with printed := disk.printed ++ text }

end BlockProgram
