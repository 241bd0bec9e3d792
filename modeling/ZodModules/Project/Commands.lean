import ZodModules.Project.Writing

/-!
# Commands

What `init`, `generate` and `validate` do. A command reads the settings and the document anew each
time; only `init` and a successful generation write anything.
-/

namespace ZodModules

/-- What to generate from, and how. -/
structure GenerateOptions where
  input : String
  settingsPath : Option String := none
  overrides : Settings.Overrides := {}
  dryRun : Bool := false

/-- What to check the generated files against. -/
structure ValidateOptions where
  input : String
  settingsPath : Option String := none
  output : Option String := none

/-- A command. -/
inductive Command where
  | init (path : String) (force : Bool)
  | generate (options : GenerateOptions)
  | validate (options : ValidateOptions)

namespace Command

variable {m : Type → Type} [Monad m] [Host m]

/-- Writes a line of output. -/
def say (line : String) : ExceptT Failure m Unit := (Host.say line : m Unit)

/-- The settings in a file. Without a path they are those in the file of the usual name, or the
defaults if there is none. -/
def loadSettings (path : Option String) : ExceptT Failure m Settings := do
  let file := path.getD Settings.fileName
  if ← (Host.isPresent file : m Bool) then
    match ← (Host.readText file : m _) with
    | .error reason => throw (.settings (.unreadable file reason))
    | .ok text =>
      match Settings.parse? text with
      | some settings => return settings
      | none => throw (.settings (.malformed file))
  else if path.isSome then throw (.settings (.missing file))
  else return {}

/-- The document of a text. -/
def readDocument (path : String) (format : OpenApi.Format) (text : String) :
    Except Failure OpenApi.Document :=
  match format.parse? text with
  | none => .error (.document (.malformed path format))
  | some value => (OpenApi.Document.ofJson value).mapError fun e => .document (.invalid e)

/-- The document in a file. -/
def loadDocument (path : String) : ExceptT Failure m OpenApi.Document := do
  if ← (Host.isPresent path : m Bool) then
    match ← (Host.readText path : m _) with
    | .error reason => throw (.document (.unreadable path reason))
    | .ok text => readDocument path (.ofPath path) text
  else throw (.document (.missing path))

/-- Tells about shapes that no validator expresses. -/
def sayWarnings (report : Report) : ExceptT Failure m Unit := do
  let warnings := report.unsupportedShapes
  if warnings.isEmpty then return
  say ("Warning: " ++ toString warnings.length ++ " unsupported shape(s):")
  warnings.forM fun warning => say ("  " ++ warning.message)

/-- The line above and below the text of a previewed file. -/
def rule : String := String.ofList (List.replicate 60 '─')

/-- The lines that tell what became of a file. -/
def outcomeText : WriteOutcome → String
  | .written path bytes => "✓ " ++ path ++ " (" ++ toString bytes ++ " bytes)"
  | .unchanged path => "· Unchanged " ++ path
  | .previewed path content => "[dry-run] " ++ path ++ "\n" ++ rule ++ "\n" ++ content ++ rule

/-- Generates the files of a document. -/
def runGenerate (options : GenerateOptions) : ExceptT Failure m Unit := do
  let settings := (← loadSettings options.settingsPath).override options.overrides
  say "Loading document..."
  let document ← loadDocument options.input
  document.title.forM fun title => say ("  Document: " ++ title)
  say ("  Found " ++ toString document.registry.schemas.size ++ " schema(s)")
  say "Generating Zod models..."
  let build ← Build.ofDocument settings document
  sayWarnings build.output.report
  say ("  Generated " ++ toString build.modelCount ++ " model(s) in " ++
    toString build.output.modules.length ++ " entity module(s)")
  let outcomes ← GeneratedFile.writeAll (if options.dryRun then .preview else .write) build.files
  outcomes.forM fun outcome => say (outcomeText outcome)

/-- Writes a settings file that states the defaults. -/
def runInit (path : String) (force : Bool) : ExceptT Failure m Unit := do
  if (← (Host.isPresent path : m Bool)) && !force then throw (.present path)
  match ← (Host.writeText path Settings.defaultText : m _) with
  | .ok _ => say ("✓ Wrote " ++ path)
  | .error reason => throw (.file reason)

/-- Checks that the files on disk are those that would be generated. -/
def runValidate (options : ValidateOptions) : ExceptT Failure m Unit := do
  say "Validating generated modules..."
  let settings := (← loadSettings options.settingsPath).override { output := options.output }
  let document ← loadDocument options.input
  let build ← Build.ofDocument settings document
  let outdated ← (GeneratedFile.outdated build.files : m _)
  if outdated.isEmpty then say "✓ Modules are up-to-date"
  else
    say "✗ Modules are out of date:"
    outdated.forM fun path => say ("  " ++ path)
    say "  Run 'zodgen generate' to update"
    throw (.outdated outdated.length)

/-- Runs a command. -/
def run : Command → ExceptT Failure m Unit
  | init path force => runInit path force
  | generate options => runGenerate options
  | validate options => runValidate options

end Command

end ZodModules
