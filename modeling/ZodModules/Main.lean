import ZodModules.Project.Arguments

/-!
# Command line

The program on the files of the system.
-/

namespace ZodModules

/-- Runs an action that may be refused by the system. -/
def attempt {α : Type} (action : IO α) : IO (Except FileError α) := do
  try return .ok (← action)
  catch e => return .error (.other (toString e))

instance : Host IO where
  isPresent path := do
    try
      discard (IO.FS.Handle.mk path .read)
      return true
    catch
      | .noFileOrDirectory .. => return false
      | .inappropriateType .. => return true
      | .permissionDenied .. => return true
      | _ => return false
  readText path := do
    match ← attempt (IO.FS.readBinFile path) with
    | .error e => return .error e
    | .ok bytes =>
      match String.fromUTF8? bytes with
      | some text => return .ok text
      | none => return .error .notText
  makeDirectories path := attempt (IO.FS.createDirAll path)
  writeText path text := attempt (IO.FS.writeFile path text)
  say := IO.println

end ZodModules

open ZodModules in
/-- Runs the program and tells why it fails. -/
def main (arguments : List String) : IO UInt32 := do
  let ending : Ending ← runProgram arguments
  match ending with
  | .failed failure => IO.eprintln ("Error: " ++ failure.message)
  | .refused => IO.eprintln usageText
  | .success => pure ()
  return ending.exitCode.toUInt32
