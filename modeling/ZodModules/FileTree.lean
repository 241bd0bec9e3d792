import ZodModules.Data.Entries
import ZodModules.Text.Segments

/-!
# Trees of files

A value that holds files and directories as a file system does: a path is followed segment by
segment from the working directory or, if it begins with a slash, from the root. Files are written
whole; a directory is made before anything in it.
-/

namespace ZodModules

/-- A place in a tree: the names that lead to it from the root. -/
abbrev Location := List String

/-- What stands at a place. -/
inductive FileTree.Entry where
  | directory
  | file (content : ByteArray)

instance : DecidableEq FileTree.Entry
  | .directory, .directory => isTrue rfl
  | .directory, .file _ => isFalse nofun
  | .file _, .directory => isFalse nofun
  | .file a, .file b => decidable_of_iff (a.data = b.data) (by
      rw [FileTree.Entry.file.injEq]
      exact ByteArray.ext_iff.symm)

/-- Files and directories, and the directory that paths start from. The root is always there. -/
structure FileTree where
  workingDirectory : Location := []
  entries : List (Location × FileTree.Entry) := []

/-- Why a file cannot be used. -/
inductive FileError where
  | missing
  | notDirectory
  | isDirectory
  | badName
  | notText
  | other (reason : String)
deriving DecidableEq

namespace FileError

/-- The wording of the reason. -/
def message : FileError → String
  | missing => "no such file or directory"
  | notDirectory => "not a directory"
  | isDirectory => "is a directory"
  | badName => "invalid name"
  | notText => "not valid UTF-8"
  | other reason => reason

end FileError

namespace FileTree

/-- What stands at a place. -/
def entry? (tree : FileTree) : Location → Option Entry
  | [] => some .directory
  | place => tree.entries.lookup place

/-- The tree with an entry set. -/
def setEntry (tree : FileTree) (place : Location) (entry : Entry) : FileTree :=
  { tree with entries := Entries.set place entry tree.entries }

/-- Whether a path is one that can be followed at all. -/
def isFollowable (path : String) : Bool :=
  path.utf8ByteSize < 4096 && path.toList.all (· != '\x00')

/-- The longest name in bytes. -/
def maxNameSize : Nat := 255

/-- The step that a segment takes from a directory. -/
def step (place : Location) (segment : String) : Except FileError Location :=
  if segment = "" ∨ segment = "." then .ok place
  else if segment = ".." then .ok place.dropLast
  else if maxNameSize < segment.utf8ByteSize then .error .badName
  else .ok (place ++ [segment])

/-- Checks that there is a directory at a place. -/
def checkDirectory (tree : FileTree) (place : Location) : Except FileError Unit :=
  match tree.entry? place with
  | some .directory => .ok ()
  | some (.file _) => .error .notDirectory
  | none => .error .missing

/-- The place that some segments lead to. Only the last of them may lead to nothing. -/
def follow (tree : FileTree) (place : Location) : List String → Except FileError Location
  | [] => .ok place
  | segment :: rest => do
    tree.checkDirectory place
    tree.follow (← step place segment) rest

/-- Where a path starts. -/
def start (tree : FileTree) (path : String) : Location :=
  if path.toList.head? = some '/' then [] else tree.workingDirectory

/-- The segments of a path. -/
def segments (path : String) : List String := (Text.segments path.toList).map String.ofList

/-- The place that a path leads to. -/
def resolve (tree : FileTree) (path : String) : Except FileError Location :=
  if path.isEmpty then .error .missing
  else if isFollowable path then tree.follow (tree.start path) (segments path)
  else .error .badName

/-- Whether there is something where a path leads. -/
def isPresent (tree : FileTree) (path : String) : Bool :=
  match tree.resolve path with
  | .ok place => (tree.entry? place).isSome
  | .error _ => false

/-- The text of the file where a path leads. -/
def readText (tree : FileTree) (path : String) : Except FileError String := do
  match tree.entry? (← tree.resolve path) with
  | some (.file content) =>
    match String.fromUTF8? content with
    | some text => .ok text
    | none => .error .notText
  | some .directory => .error .isDirectory
  | none => .error .missing

/-- The tree with a file where a path leads, over an earlier file there. -/
def writeBytes (tree : FileTree) (path : String) (content : ByteArray) :
    Except FileError FileTree := do
  let place ← tree.resolve path
  if tree.entry? place = some .directory then .error .isDirectory
  else .ok (tree.setEntry place (.file content))

/-- The tree with a file of a text where a path leads, over an earlier file there. -/
def writeText (tree : FileTree) (path text : String) : Except FileError FileTree :=
  tree.writeBytes path text.toUTF8

/-- The tree with a directory at a place, if there is no file. -/
def makeDirectory (tree : FileTree) (place : Location) : Except FileError FileTree :=
  match tree.entry? place with
  | some .directory => .ok tree
  | some (.file _) => .error .notDirectory
  | none => .ok (tree.setEntry place .directory)

/-- Makes the directories on the way along some segments. Those made before a failure stay. -/
def makeAlong (tree : FileTree) (place : Location) : List String → FileTree × Except FileError Unit
  | [] => (tree, .ok ())
  | segment :: rest =>
    match step place segment with
    | .error e => (tree, .error e)
    | .ok place =>
      match tree.makeDirectory place with
      | .error e => (tree, .error e)
      | .ok tree => tree.makeAlong place rest

/-- Makes the directory of a path with all directories that lead to it. -/
def makeDirectories (tree : FileTree) (path : String) : FileTree × Except FileError Unit :=
  if isFollowable path then tree.makeAlong (tree.start path) (segments path)
  else (tree, .error .badName)

/-- The tree without what stands at or below a place. -/
def remove (tree : FileTree) (place : Location) : FileTree :=
  { tree with entries := tree.entries.filter fun e => !place.isPrefixOf e.1 }

end FileTree

end ZodModules
