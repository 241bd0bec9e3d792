import ZodModules.FileTree

/-!
# What commands act on

Commands read and write files and say things, line by line. A `Session` is a tree of files and what
has been said, so that commands can be run as functions on it.
-/

namespace ZodModules

/-- The files that commands act on, and the output that they write. -/
class Host (m : Type → Type) where
  /-- Whether there is something where a path leads. -/
  isPresent : String → m Bool
  /-- The text of a file. -/
  readText : String → m (Except FileError String)
  /-- Makes a directory with all that lead to it. -/
  makeDirectories : String → m (Except FileError Unit)
  /-- Writes a file. -/
  writeText : String → String → m (Except FileError Unit)
  /-- Writes a line of output. -/
  say : String → m Unit

/-- A tree of files, and the output so far. -/
structure Session where
  files : FileTree
  output : String := ""

namespace Session

/-- What a path leads to, without a change. -/
def isPresent (path : String) : StateM Session Bool := do
  return (← get).files.isPresent path

/-- The text of a file, without a change. -/
def readText (path : String) : StateM Session (Except FileError String) := do
  return (← get).files.readText path

/-- Makes directories in the tree. -/
def makeDirectories (path : String) : StateM Session (Except FileError Unit) := do
  let session ← get
  let (files, result) := session.files.makeDirectories path
  set { session with files := files }
  return result

/-- Writes a file of the tree. -/
def writeText (path text : String) : StateM Session (Except FileError Unit) := do
  let session ← get
  match session.files.writeText path text with
  | .ok files =>
    set { session with files := files }
    return .ok ()
  | .error e => return .error e

/-- Adds a line to the output. -/
def say (line : String) : StateM Session Unit :=
  modify fun session => { session with output := session.output ++ line ++ "\n" }

end Session

instance : Host (StateM Session) where
  isPresent := Session.isPresent
  readText := Session.readText
  makeDirectories := Session.makeDirectories
  writeText := Session.writeText
  say := Session.say

end ZodModules
