import ZodModules.Model.Dto
import ZodModules.Report
import ZodModules.Text.Code

/-!
# Exported symbols

All modules are exported together, so a name may be declared once among the values and once among
the types of all modules. The names that follow from those of the schemas are never changed; two
schemas with one such name are a collision. Enums give way: one whose name is taken gets the first
number from two on that makes its names free.
-/

namespace ZodModules

namespace Model

/-- A shape with the constants of enums renamed. -/
def renameShape (renames : NameMap String) : Shape → Shape
  | .enum constant => .enum ((renames.get? constant).getD constant)
  | .array item => .array (renameShape renames item)
  | shape => shape

/-- An enum with its names renamed. -/
def EnumDeclaration.rename (renames : NameMap String) (declaration : EnumDeclaration) :
    EnumDeclaration :=
  { declaration with
    constant := (renames.get? declaration.constant).getD declaration.constant
    type := declaration.type.map fun type => (renames.get? type).getD type }

/-- A property with the identifiers of its expressions renamed. -/
def Property.rename (renames : NameMap String) (property : Property) : Property :=
  { property with
    validator := Code.rename renames.get? property.validator
    type := Code.rename renames.get? property.type
    shape := renameShape renames property.shape }

/-- A type declaration with the identifiers of a spelled-out type renamed. -/
def Typing.rename (renames : NameMap String) : Typing → Typing
  | .inferred => .inferred
  | .explicit type => .explicit (Code.rename renames.get? type)

/-- A model with the names of enums renamed wherever they stand. -/
def rename (renames : NameMap String) (model : Model) : Model :=
  { model with
    validator := Code.rename renames.get? model.validator
    typing := model.typing.rename renames
    enums := model.enums.map (EnumDeclaration.rename renames)
    properties := model.properties.map (Property.rename renames) }

end Model

/-- The names that are taken, each with the schema that declares it. -/
structure SymbolTable where
  values : NameMap String
  types : NameMap String

namespace SymbolTable

instance : EmptyCollection SymbolTable := ⟨⟨∅, ∅⟩⟩

/-- Whether the names of an enum are free. -/
def isFree (table : SymbolTable) (declaration : Model.EnumDeclaration) : Bool :=
  !table.values.contains declaration.constant &&
    declaration.type.all fun type => !table.types.contains type

/-- Takes the names of an enum for a schema. -/
def add (table : SymbolTable) (schema : String) (declaration : Model.EnumDeclaration) :
    SymbolTable where
  values := table.values.insert declaration.constant schema
  types :=
    match declaration.type with
    | none => table.types
    | some type => table.types.insert type schema

/-- The least number under which the names of an enum are free. Each number that is not takes up a
name of the table, so one past their count is enough. -/
def freeNumber (table : SymbolTable) (declaration : Model.EnumDeclaration) : Nat :=
  let last := table.values.size + table.types.size + 1
  ((List.range' 1 last).find? fun number => table.isFree (declaration.numbered number)).getD last

/-- Takes a name that follows from that of a schema; one that another schema has taken before is
reported. -/
def claim (schema symbol : String) (space : NameMap String) (report : Report) :
    NameMap String × Report :=
  match space.get? symbol with
  | some first =>
    if first = schema then (space, report)
    else (space, report.record schema (.collision ⟨schema, first, symbol⟩))
  | none => (space.insert symbol schema, report)

/-- Takes names that follow from that of a schema. -/
def claimAll (schema : String) (symbols : List String) (space : NameMap String) (report : Report) :
    NameMap String × Report :=
  symbols.foldl (fun state symbol => claim schema symbol state.1 state.2) (space, report)

/-- Takes the names that follow from the name of a model's schema. -/
def claimModel (config : Config) (state : SymbolTable × Report) (model : Model) :
    SymbolTable × Report :=
  let dto := if config.annotations && model.isObject then [Naming.dtoName model.name] else []
  let (values, report) :=
    claimAll model.name (model.validatorName :: dto) state.1.values state.2
  let (types, report) := claimAll model.name (model.typeName :: dto) state.1.types report
  (⟨values, types⟩, report)

/-- The new names of the enums of each schema. -/
abbrev Renames := NameMap (NameMap String)

/-- Finds names for an enum of a schema and notes how they differ from its first ones. -/
def allocate (state : SymbolTable × Renames) (schema : String)
    (declaration : Model.EnumDeclaration) : SymbolTable × Renames :=
  let (table, renames) := state
  let number := table.freeNumber declaration
  let final := declaration.numbered number
  let table := table.add schema final
  if number = 1 then (table, renames)
  else
    (table, renames.alter schema fun known =>
      let known := (known.getD ∅).insert declaration.constant final.constant
      match declaration.type, final.type with
      | some type, some newType => known.insert type newType
      | _, _ => known)

/-- Makes the exported names of some models distinct as far as that can be done. Models come in the
order of their names; the enums that are whole schemas choose before those of properties. -/
def allocateAll (models : NameMap Model) (config : Config) (report : Report) :
    NameMap Model × Report :=
  let (table, report) := models.values.foldl (claimModel config) (∅, report)
  let declarations := models.entries.flatMap fun entry => entry.2.enums.map fun e => (entry.1, e)
  let ordered := declarations.filter (·.2.type.isNone) ++ declarations.filter (·.2.type.isSome)
  let (_, renames) := ordered.foldl (fun state d => allocate state d.1 d.2) (table, (∅ : Renames))
  (models.mapEntries fun name model =>
    match renames.get? name with
    | none => model
    | some renames => model.rename renames,
    report)

end SymbolTable

end ZodModules
