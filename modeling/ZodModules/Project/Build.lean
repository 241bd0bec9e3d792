import ZodModules.Generation.Output
import ZodModules.Project.Failure

/-!
# Generated files

The modules of a document as files: one for each entity, and an index that exports them all.
-/

namespace ZodModules

/-- A file to be written. -/
structure GeneratedFile where
  /-- The entity that the file holds; none for the index. -/
  entity : Option String
  path : String
  content : String
deriving DecidableEq

/-- The generated files and the output they come from. -/
structure Build where
  /-- The files by name of entity, then the index. -/
  files : List GeneratedFile
  output : Output

namespace Build

/-- The name of the module that exports all others. -/
def indexModule : String := "index"

/-- The file of an entity. -/
def file? (build : Build) (entity : String) : Option GeneratedFile :=
  build.files.find? (·.entity == some entity)

/-- The number of models in all modules. -/
def modelCount (build : Build) : Nat := 
  build.output.modules.foldl (fun count module => count + module.models.length) 0

/-- The files of an output. -/
def filesOf (settings : Settings) (config : Config) (output : Output) : List GeneratedFile :=
  output.modules.map (fun module =>
    { entity := some module.name
      path := settings.moduleFile module.name
      content := module.content }) ++
  [{ entity := none
     path := settings.moduleFile indexModule
     content := output.indexText config }]

/-- Generates the files of a document. -/
def ofDocument (settings : Settings) (document : OpenApi.Document) : Except Failure Build := do
  let config ← settings.config.mapError fun e => .settings (.invalid e)
  let output ← (Generation.tryRun config document.registry document.usage).mapError .run
  return { files := filesOf settings config output, output := output }

end Build

end ZodModules
