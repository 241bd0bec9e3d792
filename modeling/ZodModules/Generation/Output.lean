import ZodModules.Generation.Generator
import ZodModules.Entity.Assignment
import ZodModules.Model.Imports
import ZodModules.Model.Symbols
import ZodModules.Order.Basic

/-!
# Generating modules

A run generates every schema by itself, then makes the exported names distinct, then assembles a
module for each entity: its models in the order of declaration and what they import. A schema that
cannot be generated is reported and leaves the others as they are.
-/

namespace ZodModules

/-- The module of an entity. -/
structure EntityModule where
  name : String
  /-- The path that other modules import it by. -/
  path : String
  /-- The models in the order of their declaration. -/
  models : List Model
  imports : ImportMap
  order : DeclarationOrder
  /-- The text of the module. -/
  content : String

namespace EntityModule

/-- The model of a schema. -/
def model? (module : EntityModule) (schema : String) : Option Model :=
  module.models.find? (·.name == schema)

/-- The schemas in the order of their declaration. -/
def schemaNames (module : EntityModule) : List String := module.models.map (·.name)

end EntityModule

/-- The text that a module begins with. -/
def Config.headerText (config : Config) : String :=
  if config.header.isEmpty then "" else config.header ++ "\n\n"

/-- What a run produces. -/
structure Output where
  /-- The modules by name of entity; the shared entity always has one. -/
  modules : List EntityModule
  /-- The entity of each registered schema. -/
  owners : NameMap String
  /-- The validator of each schema that has a model. -/
  validators : NameMap String
  report : Report

namespace Output

/-- The module of an entity. -/
def module? (output : Output) (entity : String) : Option EntityModule :=
  output.modules.find? (·.name == entity)

/-- The model of a schema. -/
def model? (output : Output) (schema : String) : Option Model :=
  ((output.owners.get? schema).bind output.module?).bind (·.model? schema)

/-- The text of the module that exports all others. -/
def indexText (output : Output) (config : Config) : String :=
  config.headerText ++
    String.join (output.modules.map fun module => "export * from '" ++ module.path ++ "';\n")

end Output

namespace Generation

/-- The models of the schemas of a registry, and what is reported about the schemas. -/
def generateAll (generator : Generator) (registry : Registry) (closures : ClosureIndex) :
    NameMap Model × Report :=
  registry.schemas.entries.foldl (fun (models, report) (name, schema) =>
    match closures.closures.get? name with
    | some (.error e) => (models, report.record name (.resolution e))
    | _ =>
      match generator.generate name schema registry closures with
      | .ok generated =>
        (models.insert name generated.model, report.recordAll name generated.diagnostics)
      | .error e => (models, report.record name (.resolution e)))
    (∅, ∅)

/-- Assembles the module of an entity from its models. -/
def assemble (config : Config) (generator : Generator) (owners : NameMap String) (entity : String)
    (models : List Model) : EntityModule :=
  let order := DeclarationOrder.ofMembers (models.map fun model => (model.name, model.references))
  let models := order.arrange (·.name) models
  let imports := Model.moduleImports models entity owners config
  { name := entity
    path := config.modulePath entity
    models := models
    imports := imports
    order := order
    content := config.headerText ++ imports.render ++
      String.join (models.map fun model => "\n" ++ generator.render model) }

/-- Generates all modules with some generator. -/
def runWith (generator : Generator) (config : Config) (registry : Registry) (usage : Usage) :
    Output :=
  let closures := ClosureIndex.ofRegistry registry
  let assignment := EntityAssignment.ofUsage registry usage config.sharedEntity
  let (models, report) := generateAll generator registry closures
  let (models, report) := SymbolTable.allocateAll models config report
  { modules := assignment.entities.entries.map fun entry =>
      assemble config generator assignment.owners entry.1 (entry.2.filterMap models.get?)
    owners := assignment.owners
    validators := models.mapEntries fun _ model => model.validatorName
    report := report }

/-- Generates all modules. -/
def run (config : Config) (registry : Registry) (usage : Usage) : Output :=
  runWith (generator config) config registry usage

/-- Generates all modules, or tells why the run fails. -/
def tryRunWith (generator : Generator) (config : Config) (registry : Registry) (usage : Usage) :
    Except RunError Output := do
  let output := runWith generator config registry usage
  output.report.outcome config.strict
  return output

/-- Generates all modules, or tells why the run fails. -/
def tryRun (config : Config) (registry : Registry) (usage : Usage) : Except RunError Output :=
  tryRunWith (generator config) config registry usage

end Generation

end ZodModules
