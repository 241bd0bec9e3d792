import ZodModules.Diagnostic
import ZodModules.FileTree
import ZodModules.OpenApi.Source
import ZodModules.Project.Settings

/-!
# Failures of commands

Why a command ends early, and how that is worded. What a reader of JSON, YAML or TOML or the file
system has to say stands after the rest of a message, as its detail.
-/

namespace ZodModules

/-- Why there are no settings. -/
inductive SettingsFailure where
  | missing (path : String)
  | unreadable (path : String) (reason : FileError)
  | malformed (path : String)
  | invalid (setting : InvalidSetting)

/-- Why there is no document. -/
inductive DocumentFailure where
  | missing (path : String)
  | unreadable (path : String) (reason : FileError)
  | malformed (path : String) (format : OpenApi.Format)
  | invalid (reason : OpenApi.InvalidDocument)

/-- Why a module could not be written. -/
inductive WritingFailure where
  | directory (path : String) (reason : FileError)
  | file (path : String) (reason : FileError)

/-- Why a command ends early. -/
inductive Failure where
  | settings (failure : SettingsFailure)
  | document (failure : DocumentFailure)
  | writing (failure : WritingFailure)
  | run (error : RunError)
  /-- Some modules on disk are not what would be generated. -/
  | outdated (count : Nat)
  /-- A file that is not to be replaced is there. -/
  | present (path : String)
  | file (reason : FileError)

/-- A message: what the program says, and what others have to say about it. -/
structure Wording where
  heading : String
  detail : String := ""

namespace SettingsFailure

/-- The wording of the failure. -/
def wording : SettingsFailure → Wording
  | missing path => ⟨path ++ " does not exist", ""⟩
  | unreadable path reason => ⟨"cannot read " ++ path, ": " ++ reason.message⟩
  | malformed path => ⟨path ++ ": TOML parse error", ": the text does not hold settings"⟩
  | invalid setting => ⟨setting.message, ""⟩

end SettingsFailure

namespace DocumentFailure

/-- The wording of the failure. -/
def wording : DocumentFailure → Wording
  | missing path => ⟨path ++ " does not exist", ""⟩
  | unreadable path reason => ⟨"cannot read " ++ path, ": " ++ reason.message⟩
  | malformed path format =>
    ⟨path ++ " is not valid " ++ format.name ++ ": ", "the text does not hold a value"⟩
  | invalid reason => ⟨"not an OpenAPI document: " ++ reason.message, ""⟩

end DocumentFailure

namespace WritingFailure

/-- The wording of the failure. -/
def wording : WritingFailure → Wording
  | directory path reason => ⟨"cannot create " ++ path, ": " ++ reason.message⟩
  | file path reason => ⟨"cannot write " ++ path, ": " ++ reason.message⟩

end WritingFailure

namespace Wording

/-- The wording with a text before it. -/
def after (wording : Wording) (text : String) : Wording :=
  { wording with heading := text ++ wording.heading }

/-- The whole message. -/
def text (wording : Wording) : String := wording.heading ++ wording.detail

end Wording

namespace Failure

/-- The wording of the failure. -/
def wording : Failure → Wording
  | settings failure => failure.wording.after "bad configuration: "
  | document failure => failure.wording.after "cannot load document: "
  | writing failure => failure.wording.after "cannot write modules: "
  | run error => ⟨"generation failed: " ++ error.message, ""⟩
  | outdated count => ⟨toString count ++ " module(s) out of date", ""⟩
  | present path => ⟨path ++ " already exists; pass --force to replace it", ""⟩
  | file reason => ⟨"", reason.message⟩

/-- The message of the failure. -/
def message (failure : Failure) : String := failure.wording.text

/-- The status that a program ends with on the failure. -/
def exitCode : Failure → UInt8
  | outdated _ | present _ => 2
  | _ => 1

end Failure

end ZodModules
