import ZodModules.Expr.Mapping
import ZodModules.Model.Render

/-!
# Generating models

How the model of one schema is generated. An object is expanded property by property; a schema of
any other kind is mapped as the value that it describes.
-/

namespace ZodModules

/-- What the generation of a schema yields. -/
structure Generated where
  model : Model
  diagnostics : List Diagnostic

/-- A way to generate models and to write them. -/
structure Generator where
  generate : (name : String) → Schema → Registry → ClosureIndex → Except ResolutionError Generated
  render : Model → String

namespace Generation

open Mapping

/-- The name of the generator. -/
def generatorId : String := "zod"

/-- The description of the generator. -/
def generatorName : String := "Zod Model Generator"

/-- The extension of the files that it is written for. -/
def fileExtension : String := "ts"

/-- The expression of a property: its value's, then its default, whether it may be left out, its
description and whether it may be `null`. -/
def propertyValidator (value : Mapped) (metadata : Schema.Metadata) (required : Bool) : Validator :=
  let validator :=
    match metadata.default? with
    | none => value.validator
    | some default => .defaulted value.validator default
  let validator := if required then validator else .optional validator
  (validator.describe? metadata.description).orNull value.nullable

/-- Generates a property: its expression and what is decided about it. -/
def generateProperty (scope : Scope) (indent : String) (required : NameSet)
    (property : Schema.Property Schema) : MapM (Validator × Model.Property) := do
  let value ← mapValue scope property.schema property.name property.name
  let metadata := property.schema.metadata
  let isRequired := required.contains property.name
  let validator := propertyValidator value metadata isRequired
  return (validator, {
    name := property.name
    validator := validator.text indent
    type := value.type.text
    required := isRequired
    nullable := value.nullable
    shape := value.shape
    description := metadata.description
    example? := metadata.example? })

/-- The text of the type of an object with some properties, a line for each. -/
def objectType (indent : String) (properties : List Model.Property) : String :=
  if properties.isEmpty then "{}"
  else
    let line (property : Model.Property) : String :=
      indent ++ Naming.propertyKey property.name ++ (if property.required then "" else "?") ++
        ": " ++ Model.nullableType property.type property.nullable ++ ";"
    "\x7b\n" ++ "\n".intercalate (properties.map line) ++ "\n\x7d"

/-- The expressions of a whole schema and what is decided about its properties. -/
structure Root where
  validator : Validator
  type : String
  nullable : Bool
  properties : List Model.Property
  isObject : Bool

/-- Generates the expressions of a whole schema. -/
def generateRoot (scope : Scope) (indent : String) (schema : Schema) : MapM Root := do
  match schema.kind with
  | .object properties required =>
    let fields ← properties.mapM (generateProperty scope indent required)
    let decisions := fields.map Prod.snd
    return {
      validator := .object (fields.map fun field => (field.2.name, field.1))
      type := objectType indent decisions
      nullable := schema.metadata.nullable
      properties := decisions
      isObject := true }
  | _ =>
    let value ← mapValue scope schema "" ""
    return {
      validator := value.validator
      type := value.type.text
      nullable := value.nullable
      properties := []
      isObject := false }

/-- What the references of a schema mean while it is generated. -/
def scopeOf (config : Config) (name : String) (registry : Registry) (closures : ClosureIndex) :
    Scope where
  owner := name
  registry := registry
  closures := closures
  validatorSuffix := config.validatorSuffix
  explicitTyping := config.explicitTyping

/-- The model of a schema with the given expressions and notes. A schema that reaches itself cannot
have its type inferred. -/
def modelOf (config : Config) (name : String) (schema : Schema) (closures : ClosureIndex)
    (root : Root) (state : State) : Model :=
  let isRecursive := state.recursive || closures.isRecursive name
  let validator := (root.validator.describe? schema.metadata.description).orNull root.nullable
  { name := name
    typeName := Naming.typeName name
    validatorName := config.validatorName name
    validator := validator.text config.indent.text
    typing :=
      if config.explicitTyping || isRecursive then
        .explicit (Model.nullableType root.type root.nullable)
      else .inferred
    enums := state.enums
    references := state.references
    isRecursive := isRecursive
    properties := root.properties
    isObject := root.isObject
    description := schema.metadata.description
    example? := schema.metadata.example? }

/-- Generates the model of a schema. -/
def generate (config : Config) (name : String) (schema : Schema) (registry : Registry)
    (closures : ClosureIndex) : Except ResolutionError Generated :=
  let scope := scopeOf config name registry closures
  match (generateRoot scope config.indent.text schema).run ∅ with
  | (.error e, _) => .error e
  | (.ok root, state) => .ok ⟨modelOf config name schema closures root state, state.diagnostics⟩

/-- The generator of validators. -/
def generator (config : Config) : Generator where
  generate := generate config
  render model := model.render config

end Generation

end ZodModules
