import ZodModules.Config
import ZodModules.Path
import ZodModules.Toml.Parser

/-!
# Settings of a project

What the file `zodgen.toml` says, with a default for everything it leaves out, and the configuration
of a generation that follows from it.
-/

namespace ZodModules

/-- Where the modules go. -/
structure OutputSettings where
  directory : String := "./generated"
  extension : String := "ts"
  /-- The first lines of every module; empty for none. -/
  header : String := ({} : Config).header
deriving DecidableEq

/-- How things are named. -/
structure NamingSettings where
  sharedEntity : String := "Utils"
  validatorSuffix : String := "ValidationSchema"
  importPrefix : String := "./"
deriving DecidableEq

/-- What is generated. -/
structure GenerationSettings where
  preferExplicitTyping : Bool := false
  annotations : Bool := false
  strict : Bool := false
  docs : Bool := true
  /-- The name of an indentation. -/
  indent : String := "2"
deriving DecidableEq

/-- The settings of a project. -/
structure Settings where
  output : OutputSettings := {}
  naming : NamingSettings := {}
  generation : GenerationSettings := {}
deriving DecidableEq

/-- A setting that no generation can be configured with. -/
inductive InvalidSetting where
  | indent (value : String)
  | sharedEntity
deriving DecidableEq

namespace InvalidSetting

/-- The key of the setting. -/
def key : InvalidSetting → String
  | indent _ => "generation.indent"
  | sharedEntity => "naming.shared_entity"

/-- What is wrong with the setting. -/
def reason : InvalidSetting → String
  | indent value => "must be 2, 4 or \"tab\", got \"" ++ value ++ "\""
  | sharedEntity => "must not be empty"

/-- The wording of the error. -/
def message (e : InvalidSetting) : String := "'" ++ e.key ++ "' " ++ e.reason

end InvalidSetting

namespace Settings

/-! ## Reading -/

/-- How the fields of a section are found: by name in a table, by the position of the name in an
array. All further members of a table must be readable, what an array has more does not matter. A date
or a time is a section that leaves out all fields. -/
def fields? (names : List String) : Toml → Option (String → Option Toml)
  | .table _ members =>
    if Toml.membersReadable (members.filter fun member => !names.contains member.1) then
      some fun name => members.lookup name
    else none
  | .array items => some fun name => (names.idxOf? name).bind fun position => items[position]?
  | .dateTime => some fun _ => none
  | _ => none

/-- The value of a setting, or its default if it is left out. -/
def valueOf {α : Type} (value : Option Toml) (absent : α) (read : Toml → Option α) : Option α :=
  match value with
  | none => some absent
  | some value => read value

/-- The text of a setting. -/
def textOf (value : Option Toml) (absent : String) : Option String :=
  valueOf value absent fun
    | .string text => some text
    | _ => none

/-- The truth value of a setting. -/
def truthOf (value : Option Toml) (absent : Bool) : Option Bool :=
  valueOf value absent fun
    | .boolean b => some b
    | _ => none

/-- Reads the section `output`. -/
def readOutput (section? : Option Toml) : Option OutputSettings :=
  valueOf section? {} fun value => do
    let field ← fields? ["dir", "extension", "header"] value
    let absent : OutputSettings := {}
    return {
      directory := ← textOf (field "dir") absent.directory
      extension := ← textOf (field "extension") absent.extension
      header := ← textOf (field "header") absent.header }

/-- Reads the section `naming`. -/
def readNaming (section? : Option Toml) : Option NamingSettings :=
  valueOf section? {} fun value => do
    let field ← fields? ["shared_entity", "validator_suffix", "import_prefix"] value
    let absent : NamingSettings := {}
    return {
      sharedEntity := ← textOf (field "shared_entity") absent.sharedEntity
      validatorSuffix := ← textOf (field "validator_suffix") absent.validatorSuffix
      importPrefix := ← textOf (field "import_prefix") absent.importPrefix }

/-- Reads the section `generation`. -/
def readGeneration (section? : Option Toml) : Option GenerationSettings :=
  valueOf section? {} fun value => do
    let field ← fields?
      ["prefer_explicit_typing", "generate_framework_annotations", "strict", "generate_docs", "indent"]
      value
    let absent : GenerationSettings := {}
    return {
      preferExplicitTyping := ← truthOf (field "prefer_explicit_typing") absent.preferExplicitTyping
      annotations := ← truthOf (field "generate_framework_annotations") absent.annotations
      strict := ← truthOf (field "strict") absent.strict
      docs := ← truthOf (field "generate_docs") absent.docs
      indent := ← textOf (field "indent") absent.indent }

/-- Reads all sections. Keys that are no settings do not matter; a setting of a wrong type does. -/
def ofToml? (value : Toml) : Option Settings := do
  let field ← fields? ["output", "naming", "generation"] value
  return {
    output := ← readOutput (field "output")
    naming := ← readNaming (field "naming")
    generation := ← readGeneration (field "generation") }

/-- Reads the text of a settings file. -/
def parse? (text : String) : Option Settings := (Toml.parse? text).bind ofToml?

/-! ## Use -/

/-- The configuration that follows from the settings. Of two invalid settings the indentation is
reported. -/
def config (settings : Settings) : Except InvalidSetting Config :=
  match Indent.ofText? settings.generation.indent with
  | none => .error (.indent settings.generation.indent)
  | some indent =>
    if (Text.trim settings.naming.sharedEntity.toList).isEmpty then .error .sharedEntity
    else
      .ok {
        preferExplicitTyping := settings.generation.preferExplicitTyping
        annotations := settings.generation.annotations
        strict := settings.generation.strict
        docs := settings.generation.docs
        sharedEntity := settings.naming.sharedEntity
        validatorSuffix := settings.naming.validatorSuffix
        importPrefix := settings.naming.importPrefix
        indent := indent
        header := settings.output.header }

/-- The file of a module. -/
def moduleFile (settings : Settings) (module : String) : String :=
  Path.join settings.output.directory (module ++ "." ++ settings.output.extension)

/-- Choices that take precedence over the settings. -/
structure Overrides where
  output : Option String := none
  preferExplicitTyping : Option Bool := none
  annotations : Option Bool := none
  strict : Option Bool := none

/-- The settings with some of them overridden. -/
def override (settings : Settings) (overrides : Overrides) : Settings :=
  { settings with
    output := { settings.output with
      directory := overrides.output.getD settings.output.directory }
    generation := { settings.generation with
      preferExplicitTyping :=
        overrides.preferExplicitTyping.getD settings.generation.preferExplicitTyping
      annotations := overrides.annotations.getD settings.generation.annotations
      strict := overrides.strict.getD settings.generation.strict } }

/-- The name of the settings file. -/
def fileName : String := "zodgen.toml"

/-- The lines of a settings file that states the defaults. -/
def defaultLines : List String :=
  [
    "# zodgen configuration file",
    "",
    "[output]",
    "# Output directory for generated modules",
    "dir = \"./generated\"",
    "",
    "# Extension of every generated module",
    "extension = \"ts\"",
    "",
    "# Banner written at the top of each module (empty for none)",
    "header = \"" ++ ({} : Config).header ++ "\"",
    "",
    "[naming]",
    "# Entity holding schemas used by several tags or by none",
    "shared_entity = \"Utils\"",
    "",
    "# Suffix of validator symbols (e.g., UserValidationSchema)",
    "validator_suffix = \"ValidationSchema\"",
    "",
    "# Prefix of cross-entity import paths",
    "import_prefix = \"./\"",
    "",
    "[generation]",
    "# Declare structural types (export type X = { ... }) instead of z.infer",
    "prefer_explicit_typing = false",
    "",
    "# Emit DTO classes decorated with @ApiProperty (implies explicit typing)",
    "generate_framework_annotations = false",
    "",
    "# Fail on unsupported schema shapes instead of degrading them to z.any()",
    "strict = false",
    "",
    "# Emit JSDoc from schema descriptions and examples",
    "generate_docs = true",
    "",
    "# Indentation: 2, 4 or tab",
    "indent = \"2\""
  ]

/-- A settings file that states the defaults. -/
def defaultText : String := String.join (defaultLines.map (· ++ "\n"))

end Settings

end ZodModules
