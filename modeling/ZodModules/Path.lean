import ZodModules.Text.Segments

/-!
# Paths

Paths as they are written, with slashes between their segments. Empty segments and points lead
nowhere.
-/

namespace ZodModules.Path

/-- The path of a name below a directory. A name that begins with a slash stands for itself. -/
def join (directory name : String) : String :=
  if name.toList.head? = some '/' then name
  else if directory.isEmpty ∨ directory.toList.getLast? = some '/' then directory ++ name
  else directory ++ "/" ++ name

/-- A path, last character first, without the slashes and points that lead nowhere at its end. -/
def trimReversed : List Char → List Char
  | '/' :: c :: rest => trimReversed (c :: rest)
  | '.' :: '/' :: rest => trimReversed ('/' :: rest)
  | path => path

/-- The path without its last segment; neither the empty path nor the root has one. -/
def parent? (path : String) : Option String :=
  match trimReversed path.toList.reverse with
  | [] | ['/'] => none
  | reversed => some (String.ofList (trimReversed (reversed.dropWhile (· != '/'))).reverse)

/-- The last segment that leads somewhere, unless it leads upwards. -/
def fileName? (path : String) : Option (List Char) :=
  match ((Text.segments path.toList).filter fun s => s ≠ [] ∧ s ≠ ['.']).getLast? with
  | some ['.', '.'] | none => none
  | some name => some name

/-- What follows the last point of the last segment, unless the segment begins with that point. -/
def extension? (path : String) : Option String :=
  (fileName? path).bind fun name =>
    let ending := name.reverse.takeWhile (· != '.')
    if ending.length + 1 < name.length then some (String.ofList ending.reverse) else none

end ZodModules.Path
