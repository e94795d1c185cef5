import RealMode.Files.Disk
import RealMode.Files.Path
import Std.Data.TreeMap

/-!
# File trees

A file tree is a whole file system as a value: the files with their bytes and the
directories, from the root downward, and the working directory. A place is given by the
names on the way to it, the last one first. A path is followed part by part, from the root
if it is absolute and else from the working directory, and every part but the last has to
lead to a directory. A `..` leads to the directory above; the root is above itself.
-/

namespace RealMode

/-- What can be at a place. -/
inductive FileEntry
  | file (bytes : ByteArray)
  | directory

/-- The entries below the root by their places, and the place of the working directory. -/
structure FileTree where
  entries : Std.TreeMap (List String) FileEntry := ∅
  workDir : List String := []

namespace FileTree

/-- What is at a place. The root is always there; any other entry is one of a
directory. -/
def get? (tree : FileTree) : List String → Option FileEntry
  | [] => some .directory
  | name :: above => match tree.get? above with
    | some .directory => tree.entries[name :: above]?
    | _ => none

/-- Goes on from a place by one part of a path. -/
def step (tree : FileTree) (place : List String) (part : String) :
    Except FileFault (List String) :=
  match tree.get? place with
  | none => .error .noEntry
  | some (.file _) => .error .notDirectory
  | some .directory =>
    if part = "" || part = "." then .ok place
    else if part = ".." then .ok place.tail
    else .ok (part :: place)

/-- Where a path starts. -/
def origin (tree : FileTree) (path : String) : List String :=
  if path.toList.head? = some '/' then [] else tree.workDir

/-- The place that a path leads to. Its last part need not be there. -/
def follow (tree : FileTree) (path : String) : Except FileFault (List String) :=
  if path = "" then .error .noEntry
  else
    let parts := (Path.splitSlash path.toList).map String.ofList
    parts.foldlM tree.step (tree.origin path)

/-- The bytes of a file. -/
def read (tree : FileTree) (path : String) : Except FileFault ByteArray := do
  match tree.get? (← tree.follow path) with
  | none => .error .noEntry
  | some .directory => .error .isDirectory
  | some (.file bytes) => return bytes

/-- The text of a file. -/
def readText (tree : FileTree) (path : String) : Except FileFault String := do
  match String.fromUTF8? (← tree.read path) with
  | some text => return text
  | none => .error .invalidText

/-- Whether anything is at a path. -/
def hasEntry (tree : FileTree) (path : String) : Bool :=
  match tree.follow path with
  | .ok place => (tree.get? place).isSome
  | .error _ => false

/-- Puts an entry at a place. -/
def put (tree : FileTree) (place : List String) (entry : FileEntry) : FileTree :=
  { tree with entries := tree.entries.insert place entry }

/-- Writes a file. -/
def writeText (tree : FileTree) (path text : String) : Except FileFault FileTree := do
  let place ← tree.follow path
  match tree.get? place with
  | some .directory => .error .isDirectory
  | _ => return tree.put place (.file text.toUTF8)

/-- Adds directories one in the other; their names are given from the outer one inward. -/
def addDirectories (tree : FileTree) (above : List String) : List String → FileTree
  | [] => tree
  | name :: rest =>
    (tree.put (name :: above) .directory).addDirectories (name :: above) rest

/-- A file tree that has no more than a working directory. -/
def workingIn (names : List String) : FileTree :=
  ({ workDir := names.reverse } : FileTree).addDirectories [] names

/-- Adds an entry below the working directory, with the directories above it. -/
def add (tree : FileTree) (path : String) (entry : FileEntry) : FileTree :=
  let parts := (Path.splitSlash path.toList).filter fun part => !Path.isIdle part
  let names := parts.map String.ofList
  (tree.addDirectories tree.workDir names.dropLast).put
    (names.reverse ++ tree.workDir) entry

/-- The files with their bytes, by their places. -/
def files (tree : FileTree) : List (List String × ByteArray) :=
  tree.entries.toList.filterMap fun (place, entry) =>
    match entry with
    | .file bytes => some (place, bytes)
    | .directory => none

/-- A file tree as a disk. -/
def disk : Disk (StateM FileTree) where
  readText path := return (← get).readText path
  hasEntry path := return (← get).hasEntry path
  writeText path text := do
    match (← get).writeText path text with
    | .ok tree =>
      set tree
      return .ok ()
    | .error fault => return .error fault

end FileTree

end RealMode
