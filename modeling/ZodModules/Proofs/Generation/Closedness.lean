import ZodModules.Proofs.Generation.Modules
import ZodModules.Proofs.Model.Exports
import ZodModules.Proofs.Model.Importing

/-!
# Modules are closed

No module uses a symbol that it neither declares before nor imports. What a model refers to has a
model, whose module is the one it is imported from; only where a reference closes a cycle does the
referring declaration not come last, and there the symbol is not used.
-/

namespace ZodModules

/-- What a model refers to as `target` is provided by the model `referred` of the module `home`. -/
structure EntityModule.Provides (registry : Registry) (config : Config) (module : EntityModule)
    (model : Model) (target : String) (home : EntityModule) (referred : Model) : Prop where
  name : referred.name = target
  path : home.path = config.modulePath home.name
  validator : referred.validatorName = config.validatorName target
  type : referred.typeName = Naming.typeName target
  /-- A class that a decorator of the model names is declared. -/
  dtoClass : config.annotations → target ∈ model.dtoReferences →
    Naming.dtoName target ∈ referred.classNames config
  /-- Within one module the declaration comes first, or it leads back to the model. -/
  before : home.name = module.name →
    [referred, model].Sublist module.models ∨ registry.Reaches target model.name
  /-- From another module all that is used is imported. -/
  imported : home.name ≠ module.name →
    ∀ symbol ∈ model.uses config target, module.imports.contains home.path symbol

/-- The validator of a model is the text of the expression generated for its schema, its enums
renamed, and uses the symbols of references only that do not lead back to the model. -/
def Model.UsesNoCycle (registry : Registry) (config : Config) (model : Model) : Prop :=
  ∃ schema expression, registry.get? model.name = some schema ∧
    Generation.expression? config model.name schema registry (ClosureIndex.ofRegistry registry) =
      some expression ∧
    model.validator = Code.rename (Generation.newNames config registry model.name).get?
      (expression.text config.indent.text) ∧
    ∀ symbol ∈ expression.symbols, ∃ target ∈ model.references,
      ¬ registry.Reaches target model.name ∧ symbol = config.validatorName target

/-- Every module of an output has all that its declarations use. -/
structure Output.Closed (registry : Registry) (config : Config) (output : Output) : Prop where
  provided : ∀ module ∈ output.modules, ∀ model ∈ module.models, ∀ target ∈ model.references,
    ∃ home ∈ output.modules, ∃ referred ∈ home.models,
      output.owners.get? target = some home.name ∧
        module.Provides registry config model target home referred
  acyclic : ∀ module ∈ output.modules, ∀ model ∈ module.models,
    model.UsesNoCycle registry config

namespace Generation

variable {config : Config} {registry : Registry} {usage : Usage}

/-- Each model stands in the module of the entity that owns its schema. -/
theorem exists_home (usage : Usage) {target : String} {referred : Model}
    (found : (finals config registry).get? target = some referred) :
    ∃ home ∈ (run config registry usage).modules, referred ∈ home.models ∧
      (run config registry usage).owners.get? target = some home.name := by
  have registered := (exists_final_iff.1 ⟨referred, found⟩).1
  obtain ⟨entity, schemas, listed, owner⟩ :=
    EntityAssignment.exists_entity_of_contains usage config.sharedEntity registered
  have member : assemble config (generator config) (run config registry usage).owners entity
      (modelsOf config registry schemas) ∈ (run config registry usage).modules :=
    mem_modules_iff.2 ⟨entity, schemas, listed, rfl⟩
  have same := name_of_get?_finals found
  refine ⟨_, member, (mem_models_iff member).2 ?_, owner⟩
  rw [same]
  exact ⟨found, owner⟩

theorem path_of_mem_modules {module : EntityModule}
    (member : module ∈ (run config registry usage).modules) :
    module.path = config.modulePath module.name := by
  obtain ⟨entity, schemas, -, rfl⟩ := mem_modules_iff.1 member
  rfl

/-- A module imports what its models ask for. -/
theorem contains_imports {module : EntityModule}
    (member : module ∈ (run config registry usage).modules) {model : Model}
    (declared : model ∈ module.models) {source symbol : String}
    (asked : (source, symbol) ∈
      model.importPairs module.name (run config registry usage).owners config) :
    module.imports.contains source symbol := by
  obtain ⟨entity, schemas, listed, rfl⟩ := mem_modules_iff.1 member
  exact Model.contains_moduleImports declared asked

/-- Every reference of a model is to a schema that has a model, too. -/
theorem exists_referred {name target : String} {model : Model}
    (found : (finals config registry).get? name = some model) (member : target ∈ model.references) :
    ∃ referred, (finals config registry).get? target = some referred := by
  obtain ⟨-, resolves⟩ := exists_final_iff.1 ⟨model, found⟩
  have reaches : registry.Reaches name target := .single (refers_of_mem_references found member).1
  exact exists_final_iff.2 ⟨resolves.contains reaches, resolves.of_reaches reaches⟩

/-- A class that the decorators of a model name belongs to an object schema. -/
theorem isObject_of_mem_dtoReferences {name target : String} {model referred : Model}
    (found : (finals config registry).get? name = some model)
    (referred_found : (finals config registry).get? target = some referred)
    (cited : target ∈ model.dtoReferences) : referred.isObject := by
  obtain ⟨draft, drafted, rfl⟩ := get?_finals_iff.1 found
  obtain ⟨other, other_drafted, rfl⟩ := get?_finals_iff.1 referred_found
  obtain ⟨schema, -, refers⟩ := refers_draft drafted
  obtain ⟨other_schema, registered, other_refers⟩ := refers_draft other_drafted
  rw [Model.dtoReferences_rename] at cited
  obtain ⟨target_schema, target_registered, object⟩ := refers.classes target cited
  rw [registered] at target_registered
  cases target_registered
  rw [Model.isObject_rename, other_refers.isObject]
  exact object

theorem usesNoCycle {name : String} {model : Model}
    (found : (finals config registry).get? name = some model) :
    model.UsesNoCycle registry config := by
  obtain ⟨-, resolves⟩ := exists_final_iff.1 ⟨model, found⟩
  obtain ⟨draft, drafted, rfl⟩ := get?_finals_iff.1 found
  obtain ⟨schema, registered, refers⟩ := refers_draft drafted
  obtain ⟨expression, generated, text, symbols⟩ := refers.validator
  have same : (draft.rename (newNames config registry name)).name = name := refers.name
  refine ⟨schema, expression, ?_, ?_, ?_, ?_⟩
  · rw [same]
    exact registered
  · rw [same]
    exact generated
  · rw [same, ← text]
    rfl
  · intro symbol used
    obtain ⟨target, member, known, opens, symbol_eq⟩ := symbols symbol used
    refine ⟨target, member, ?_, symbol_eq⟩
    rw [same]
    intro back
    have cited : registry.Reaches name target :=
      .single ⟨schema, registered, (refers.references target member).1⟩
    exact opens (ClosureIndex.reaches_ofRegistry.2 ⟨⟨known, resolves.of_reaches cited⟩, back⟩)

/-- Every module that a run generates has all that its declarations use. -/
theorem closed_run (config : Config) (registry : Registry) (usage : Usage) :
    (run config registry usage).Closed registry config where
  provided := by
    intro module member model declared target cited
    obtain ⟨found, owned⟩ := (mem_models_iff member).1 declared
    obtain ⟨referred, referred_found⟩ := exists_referred found cited
    obtain ⟨home, home_member, present, owner⟩ := exists_home usage referred_found
    refine ⟨home, home_member, referred, present, owner, ?_⟩
    have same := name_of_get?_finals referred_found
    obtain ⟨other, other_drafted, rfl⟩ := get?_finals_iff.1 referred_found
    obtain ⟨other_schema, -, other_refers⟩ := refers_draft other_drafted
    have path := path_of_mem_modules home_member
    refine ⟨same, path, other_refers.validatorName, other_refers.typeName, ?_, ?_, ?_⟩
    · intro annotations named
      have object := isObject_of_mem_dtoReferences found referred_found named
      rw [Model.classNames, if_pos (by rw [annotations, object]; rfl), same]
      exact List.mem_singleton_self _
    · intro here
      have inside : other.rename (newNames config registry target) ∈ module.models := by
        refine (mem_models_iff member).2 ?_
        rw [same]
        exact ⟨referred_found, here ▸ owner⟩
      have precedes := precedes_of_mem_references member declared inside (same.symm ▸ cited)
      rwa [same] at precedes
    · intro foreign symbol used
      rw [path]
      exact contains_imports member declared
        (Model.mem_importPairs_of_uses cited owner foreign used)
  acyclic := by
    intro module member model declared
    exact usesNoCycle ((mem_models_iff member).1 declared).1

end Generation

end ZodModules
