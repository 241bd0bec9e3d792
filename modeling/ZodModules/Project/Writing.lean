import ZodModules.Project.Build
import ZodModules.Project.Host

/-!
# Writing generated files

A file is written only if its text is not on disk yet, so that nothing else notices a module that
stays the same. The same comparison tells which files are out of date.
-/

namespace ZodModules

/-- Whether files are written or only shown. -/
inductive WriteMode where
  | write
  | preview
deriving DecidableEq

/-- What became of a file. -/
inductive WriteOutcome where
  | written (path : String) (bytes : Nat)
  | unchanged (path : String)
  | previewed (path content : String)
deriving DecidableEq

namespace WriteOutcome

/-- The path of the file. -/
def path : WriteOutcome → String
  | written path _ | unchanged path | previewed path _ => path

/-- Whether the disk was changed. -/
def touchesDisk : WriteOutcome → Bool
  | written .. => true
  | _ => false

end WriteOutcome

namespace GeneratedFile

variable {m : Type → Type} [Monad m] [Host m]

/-- Whether the text of a file is on disk. -/
def isCurrent (file : GeneratedFile) : m Bool := do
  match ← Host.readText file.path with
  | .ok text => return text == file.content
  | .error _ => return false

/-- Makes the directory of a file. -/
def makeParent (file : GeneratedFile) : ExceptT Failure m Unit := do
  match (Path.parent? file.path).filter (!·.isEmpty) with
  | some directory =>
    match ← (Host.makeDirectories directory : m _) with
    | .ok _ => return
    | .error reason => throw (.writing (.directory directory reason))
  | none => return

/-- Writes a file, with its directory, unless its text is on disk already. -/
def write (mode : WriteMode) (file : GeneratedFile) : ExceptT Failure m WriteOutcome := do
  if mode = .preview then return .previewed file.path file.content
  if ← (file.isCurrent : m Bool) then return .unchanged file.path
  file.makeParent
  match ← (Host.writeText file.path file.content : m _) with
  | .ok _ => return .written file.path file.content.utf8ByteSize
  | .error reason => throw (.writing (.file file.path reason))

/-- Writes files in order, up to the first failure. -/
def writeAll (mode : WriteMode) (files : List GeneratedFile) :
    ExceptT Failure m (List WriteOutcome) :=
  files.mapM (write mode)

/-- The paths of the files whose texts are not on disk. -/
def outdated (files : List GeneratedFile) : m (List String) := do
  let stale ← files.filterM fun file => do return !(← file.isCurrent)
  return stale.map (·.path)

end GeneratedFile

end ZodModules
