import ZodModules.Proofs.Expr.LooseUnions
import ZodModules.Proofs.Generation.Modules

/-!
# Typing modes of a run

Spelling out types changes the texts of validators, how types are declared and what is imported for
that. Everything else that a run decides is the same: which schemas have a model, in which order the
models of a module are declared, what their enums are called, and what is reported.
-/

namespace ZodModules

namespace Model

/-- The property without the text of its validator. -/
def Property.outline (property : Property) : Property := { property with validator := "" }

/-- The model without the texts of validators and without how its type is declared. -/
def outline (model : Model) : Model :=
  { model with
    validator := ""
    typing := .inferred
    properties := model.properties.map Property.outline }

theorem outline_rename (renames : NameMap String) (model : Model) :
    (model.rename renames).outline = (model.outline.rename renames).outline := by
  unfold rename outline
  simp only [List.map_map]
  rfl

end Model

/-- The module without the texts of validators and without what is declared and imported for the
types of models. -/
def EntityModule.outline (module : EntityModule) : EntityModule :=
  { module with models := module.models.map Model.outline, imports := ∅, content := "" }

/-- What is generated for a schema, with the model in outline. -/
def Generated.outline (generated : Generated) : Generated :=
  { generated with model := generated.model.outline }

/-- What a run produces, with the modules in outline. -/
def Output.outline (output : Output) : Output :=
  { output with modules := output.modules.map EntityModule.outline }

/-- The same choices with types spelled out. -/
def Config.spelledOut (config : Config) : Config := { config with preferExplicitTyping := true }

/-- The outlines of some models. -/
def NameMap.outlines (models : NameMap Model) : NameMap Model :=
  models.mapEntries fun _ => Model.outline

theorem NameMap.get?_outlines (models : NameMap Model) (name : String) :
    models.outlines.get? name = (models.get? name).map Model.outline :=
  get?_mapEntries ..

theorem NameMap.validatorNames_outlines (models : NameMap Model) :
    (models.outlines.mapEntries fun _ model => model.validatorName) =
      models.mapEntries fun _ model => model.validatorName := by
  refine ext_get? fun name => ?_
  rw [get?_mapEntries, get?_mapEntries, get?_outlines, Option.map_map]
  rfl

/-- Models in outline, and what is reported. -/
def outlinesOf (state : NameMap Model × Report) : NameMap Model × Report :=
  (state.1.outlines, state.2)

namespace SymbolTable

/-- The names of schemas are taken in the same way for models with the same outlines. -/
theorem claimed_outlines (config : Config) (models : NameMap Model) (report : Report) :
    claimed config models.outlines report = claimed config models report := by
  unfold claimed NameMap.values NameMap.outlines NameMap.mapEntries
  rw [List.map_map, List.foldl_map, List.foldl_map]
  rfl

theorem declarations_outlines (models : NameMap Model) :
    declarations models.outlines = declarations models := by
  unfold declarations NameMap.outlines NameMap.mapEntries
  rw [List.flatMap_map]
  rfl

theorem renamesOf_outlines (config : Config) (models : NameMap Model) (report : Report)
    (schema : String) :
    renamesOf config models.outlines report schema = renamesOf config models report schema := by
  unfold renamesOf allocated
  rw [claimed_outlines, declarations_outlines]

/-- The allocation reads nothing of a model but its outline. -/
theorem outlinesOf_allocateAll (config : Config) (models : NameMap Model) (report : Report) :
    outlinesOf (allocateAll models config report) =
      outlinesOf (allocateAll models.outlines config.spelledOut report) := by
  refine Prod.ext (NameMap.ext_get? fun name => ?_) ?_
  · show (allocateAll models config report).1.outlines.get? name =
      (allocateAll models.outlines config report).1.outlines.get? name
    rw [NameMap.get?_outlines, NameMap.get?_outlines, get?_allocateAll, get?_allocateAll,
      renamesOf_outlines, NameMap.get?_outlines]
    cases models.get? name with
    | none => rfl
    | some model => exact congrArg some (Model.outline_rename _ model)
  · show (claimed config models report).2 = (claimed config models.outlines report).2
    rw [claimed_outlines]

end SymbolTable

namespace Generation

open Mapping

/-- What is decided about some fields, but for the texts of their validators. -/
def fieldOutlines (fields : List (Validator × Model.Property)) : List Model.Property :=
  fields.map fun field => field.2.outline

/-- The expressions without the validator, and the properties in outline. -/
def Root.outline (root : Root) : Root :=
  { root with validator := .any, properties := root.properties.map Model.Property.outline }

section Schemas

variable {scope : Scope} {indent : String} {required : NameSet}

theorem outline_generateProperty (property : Schema.Property Schema) :
    (fun field => field.2.outline) <$> generateProperty scope.spelledOut indent required property =
      (fun field => field.2.outline) <$> generateProperty scope indent required property := by
  unfold generateProperty
  rw [mapValue_spelledOut, bind_map_left, map_bind, map_bind]
  rfl

theorem fieldOutlines_properties (properties : List (Schema.Property Schema)) :
    fieldOutlines <$> properties.mapM (generateProperty scope.spelledOut indent required) =
      fieldOutlines <$> properties.mapM (generateProperty scope indent required) := by
  have step (scope : Scope) (property : Schema.Property Schema)
      (rest : List (Schema.Property Schema)) :
      fieldOutlines <$> (property :: rest).mapM (generateProperty scope indent required) = do
        let first ← (fun field => field.2.outline) <$> generateProperty scope indent required property
        let others ← fieldOutlines <$> rest.mapM (generateProperty scope indent required)
        return first :: others := by
    rw [List.mapM_cons, map_bind, bind_map_left]
    simp only [map_bind, bind_map_left, map_pure, fieldOutlines, List.map_cons]
  induction properties with
  | nil => rw [List.mapM_nil, List.mapM_nil]
  | cons property rest ih => rw [step, step, outline_generateProperty, ih]

theorem objectType_outlines (properties : List Model.Property) :
    objectType indent (properties.map Model.Property.outline) = objectType indent properties := by
  unfold objectType
  dsimp only
  rw [List.isEmpty_map, List.map_map]
  rfl

/-- The outline of an object's expressions is decided by those of its fields. -/
theorem outline_objectRoot (metadata : Schema.Metadata) (fields : List (Validator × Model.Property)) :
    (objectRoot indent metadata fields).outline =
      { validator := .any
        type := objectType indent (fieldOutlines fields)
        nullable := metadata.nullable
        properties := fieldOutlines fields
        isObject := true } := by
  have outlines : fieldOutlines fields = (fields.map Prod.snd).map Model.Property.outline := by
    rw [List.map_map]
    rfl
  rw [outlines, objectType_outlines]
  rfl

theorem outline_generateRoot (schema : Schema) :
    Root.outline <$> generateRoot scope.spelledOut indent schema =
      Root.outline <$> generateRoot scope indent schema := by
  rcases object_or_value schema with ⟨properties, required, metadata, rfl⟩ | value
  · have step (scope : Scope) :
        Root.outline <$> generateRoot scope indent ⟨.object properties required, metadata⟩ = do
          let outlines ← fieldOutlines <$>
            properties.mapM (generateProperty scope indent required)
          return {
            validator := .any
            type := objectType indent outlines
            nullable := metadata.nullable
            properties := outlines
            isObject := true } := by
      show Root.outline <$> (properties.mapM (generateProperty scope indent required) >>=
        fun fields => pure (objectRoot indent metadata fields)) = _
      rw [map_bind, bind_map_left]
      simp only [map_pure, outline_objectRoot]
    rw [step, step, fieldOutlines_properties]
  · rw [generateRoot_of_value value, generateRoot_of_value value, mapValue_spelledOut,
      bind_map_left, map_bind, map_bind]
    rfl

end Schemas

section Models

variable {config : Config} {name : String} {schema : Schema} {registry : Registry}
  {closures : ClosureIndex}

/-- The outline of a model is decided by that of its expressions, however types are declared. -/
theorem outline_modelOf (root : Root) (state : State) :
    (modelOf config name schema closures root state).outline =
      (modelOf config.spelledOut name schema closures root.outline state).outline := by
  unfold modelOf Model.outline Root.outline
  simp only [List.map_map]
  rfl

/-- What is generated for a schema, by what its expressions come to. -/
theorem generate_eq_outcome :
    generate config name schema registry closures =
      let result := outcome (generateRoot (scopeOf config name registry closures)
        config.indent.text schema) ∅
      result.1.map fun root =>
        ⟨modelOf config name schema closures root result.2, result.2.diagnostics⟩ := by
  rcases yields_or_fails
      (generateRoot (scopeOf config name registry closures) config.indent.text schema) ∅ with
    ⟨root, state, run⟩ | ⟨e, failed⟩
  · rw [generate_of_yields run]
    unfold Yields at run
    rw [run]
    rfl
  · rw [generate_of_fails failed]
    unfold Fails at failed
    dsimp only
    rw [failed]
    rfl

/-- The outline of what is generated is decided by that of the expressions. -/
theorem outline_generate_eq :
    (generate config name schema registry closures).map Generated.outline =
      let result := outcome (Root.outline <$> generateRoot (scopeOf config name registry closures)
        config.indent.text schema) ∅
      result.1.map fun root =>
        ⟨(modelOf config.spelledOut name schema closures root result.2).outline,
          result.2.diagnostics⟩ := by
  rw [generate_eq_outcome, outcome_map]
  dsimp only
  cases (outcome (generateRoot (scopeOf config name registry closures) config.indent.text schema)
    ∅).1 with
  | ok root =>
    show Except.ok (Generated.mk (modelOf config name schema closures root _).outline _) = _
    rw [outline_modelOf]
    rfl
  | error e => rfl

/-- Spelling out types changes nothing about the outline of what is generated. -/
theorem outline_generate :
    (generate config.spelledOut name schema registry closures).map Generated.outline =
      (generate config name schema registry closures).map Generated.outline := by
  have scopes : scopeOf config.spelledOut name registry closures =
      (scopeOf config name registry closures).spelledOut := rfl
  have indents : config.spelledOut.indent = config.indent := rfl
  rw [outline_generate_eq, outline_generate_eq, scopes, indents, outline_generateRoot]
  rfl

end Models

section Runs

variable {config : Config} {registry : Registry} {closures : ClosureIndex}

/-- Adds what the generation of a schema comes to. -/
def addResult (state : NameMap Model × Report) (name : String)
    (result : Except ResolutionError Generated) : NameMap Model × Report :=
  match result with
  | .ok generated =>
    (state.1.insert name generated.model, state.2.recordAll name generated.diagnostics)
  | .error e => (state.1, state.2.record name (.resolution e))

theorem outlinesOf_addResult (state : NameMap Model × Report) (name : String)
    (result : Except ResolutionError Generated) :
    outlinesOf (addResult state name result) =
      addResult (outlinesOf state) name (result.map Generated.outline) := by
  cases result with
  | error e => rfl
  | ok generated =>
    unfold addResult outlinesOf NameMap.outlines
    rw [NameMap.mapEntries_insert]
    rfl

/-- One step of generating all models in outline. -/
def outlineEntry (config : Config) (registry : Registry) (closures : ClosureIndex)
    (state : NameMap Model × Report) (entry : String × Schema) : NameMap Model × Report :=
  match closures.closures.get? entry.1 with
  | some (.error e) => addResult state entry.1 (.error e)
  | _ => addResult state entry.1
    ((generate config entry.1 entry.2 registry closures).map Generated.outline)

theorem outlineEntry_spelledOut :
    outlineEntry config.spelledOut registry closures = outlineEntry config registry closures := by
  funext state entry
  rw [outlineEntry, outlineEntry, outline_generate]

theorem outlinesOf_generateEntry (state : NameMap Model × Report) (entry : String × Schema) :
    outlinesOf (generateEntry (generator config) registry closures state entry) =
      outlineEntry config registry closures (outlinesOf state) entry := by
  have generated := outlinesOf_addResult state entry.1
    (generate config entry.1 entry.2 registry closures)
  unfold generateEntry outlineEntry
  rcases closures.closures.get? entry.1 with _ | e | reached
  · exact generated
  · rfl
  · exact generated

theorem outlinesOf_generateAll_eq :
    outlinesOf (generateAll (generator config) registry closures) =
      registry.schemas.entries.foldl (outlineEntry config registry closures) (∅, ∅) := by
  rw [generateAll_eq_foldl]
  exact (List.foldl_hom outlinesOf fun state entry => (outlinesOf_generateEntry state entry).symm).symm

/-- All drafts of a run in outline, and the report on them. -/
theorem outlinesOf_drafts (config : Config) (registry : Registry) :
    outlinesOf (drafts config.spelledOut registry) = outlinesOf (drafts config registry) := by
  unfold drafts
  rw [outlinesOf_generateAll_eq, outlinesOf_generateAll_eq, outlineEntry_spelledOut]

/-- What is assembled from some models, in outline, is decided by their outlines. -/
theorem outline_assemble (generator generator' : Generator) (owners : NameMap String)
    (entity : String) {models models' : List Model}
    (same : models.map Model.outline = models'.map Model.outline) :
    (assemble config generator owners entity models).outline =
      (assemble config.spelledOut generator' owners entity models').outline := by
  have members (models : List Model) : models.map (fun model => (model.name, model.references)) =
      (models.map Model.outline).map fun model => (model.name, model.references) := by
    rw [List.map_map]
    rfl
  have arranged (order : DeclarationOrder) (models : List Model) :
      (order.arrange (·.name) models).map Model.outline =
        order.arrange (·.name) (models.map Model.outline) := by
    rw [DeclarationOrder.arrange_map]
    rfl
  unfold assemble EntityModule.outline
  simp only [arranged, members models, members models', same]
  rfl

/-- The models of a run in the end, with their exported names made distinct, and its report. -/
def allocatedDrafts (config : Config) (registry : Registry) : NameMap Model × Report :=
  SymbolTable.allocateAll (drafts config registry).1 config (drafts config registry).2

theorem outlinesOf_allocatedDrafts (config : Config) (registry : Registry) :
    outlinesOf (allocatedDrafts config.spelledOut registry) =
      outlinesOf (allocatedDrafts config registry) := by
  have drafted := outlinesOf_drafts config registry
  obtain ⟨models, report⟩ := Prod.mk.inj drafted
  unfold allocatedDrafts
  rw [SymbolTable.outlinesOf_allocateAll, SymbolTable.outlinesOf_allocateAll config, models, report]
  rfl

/-- Spelling out types changes nothing about the outline of a run. -/
theorem outline_run (config : Config) (registry : Registry) (usage : Usage) :
    (run config.spelledOut registry usage).outline = (run config registry usage).outline := by
  obtain ⟨models, report⟩ := Prod.mk.inj (outlinesOf_allocatedDrafts config registry)
  have listed (names : List String) :
      (names.filterMap (allocatedDrafts config registry).1.get?).map Model.outline =
        (names.filterMap (allocatedDrafts config.spelledOut registry).1.get?).map
          Model.outline := by
    simp only [List.map_filterMap, ← NameMap.get?_outlines, models]
  have modules : (run config.spelledOut registry usage).modules.map EntityModule.outline =
      (run config registry usage).modules.map EntityModule.outline := by
    show List.map _ (List.map _ _) = List.map _ (List.map _ _)
    rw [List.map_map, List.map_map]
    exact List.map_congr_left fun entry _ => (outline_assemble _ _ _ _ (listed entry.2)).symm
  have validators : (run config.spelledOut registry usage).validators =
      (run config registry usage).validators := by
    have named (config : Config) : (run config registry usage).validators =
        (allocatedDrafts config registry).1.mapEntries fun _ model => model.validatorName := rfl
    rw [named, named, ← NameMap.validatorNames_outlines, models, NameMap.validatorNames_outlines]
  unfold Output.outline
  rw [modules]
  exact congrArg₂ (Output.mk _ _) validators report

/-- What the modules of a run declare: for each the order, with the cycles that it breaks, and the
enums of each model, in that order. -/
def declared (output : Output) :
    List (String × DeclarationOrder × List (String × List Model.EnumDeclaration)) :=
  output.modules.map fun module =>
    (module.name, module.order, module.models.map fun model => (model.name, model.enums))

theorem declared_outline (output : Output) : declared output.outline = declared output := by
  unfold declared Output.outline
  rw [List.map_map]
  refine List.map_congr_left fun module _ => ?_
  show (module.name, module.order, (module.models.map Model.outline).map _) = _
  rw [List.map_map]
  rfl

end Runs

/-- Whether types are spelled out does not change how values are validated. Any values mapped one
after another, from any notes and with either way of typing, come to what they come to with types
spelled out once each discriminated union is made a plain one: they fail with the same errors or have
the same types, and each leaves the same notes. So the way that a configuration prefers changes
neither which models the modules of a run declare, nor their order and the names of their enums, nor
what is reported. -/
theorem typing_modes_agree :
    (∀ (scope : Scope) calls before,
      ((answers scope calls before).map fun answer => (answer.1.map Mapped.loosen, answer.2)) =
        answers { scope with explicitTyping := true } calls before) ∧
    ∀ (config : Config) registry usage,
      let explicit := run { config with preferExplicitTyping := true } registry usage
      let inferred := run { config with preferExplicitTyping := false } registry usage
      declared explicit = declared inferred ∧ explicit.outline = inferred.outline := by
  constructor
  · intro scope calls before
    exact (answers_spelledOut scope calls before).symm
  · intro config registry usage
    have outlines := outline_run { config with preferExplicitTyping := false } registry usage
    refine ⟨?_, outlines⟩
    rw [← declared_outline, ← declared_outline (run _ _ _)]
    exact congrArg declared outlines

end Generation

end ZodModules
