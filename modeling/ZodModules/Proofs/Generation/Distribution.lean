import ZodModules.Proofs.Entity.Placement
import ZodModules.Proofs.Generation.Uniqueness

/-!
# Models in their modules

The modules of a run are those of the entities, and all together they declare the model of each
schema that was generated once, in the module of the entity that the schema belongs to.
-/

namespace ZodModules

/-- The modules of an output declare the generated models, each once and in its place. -/
structure Output.Distributes (output : Output) (config : Config) (registry : Registry)
    (assignment : EntityAssignment) : Prop where
  /-- There is one module for each entity, and schemas have the entities that they were assigned. -/
  modules : output.modules.map (·.name) = assignment.entities.keys.toList
  owners : output.owners = assignment.owners
  /-- All modules together declare one model for each schema that was generated, and no other. -/
  once : (output.models.map (·.name)).Perm (Generation.drafts config registry).1.keys.toList
  home : ∀ module ∈ output.modules, ∀ model ∈ module.models,
    output.owners.get? model.name = some module.name
  /-- A declared model is the generated one, its enums renamed. -/
  generated : ∀ model ∈ output.models, ∃ draft,
    (Generation.drafts config registry).1.get? model.name = some draft ∧
      draft.rename (Generation.newNames config registry model.name) = model

namespace Generation

variable {config : Config} {registry : Registry} {usage : Usage}

theorem map_name_modules (config : Config) (registry : Registry) (usage : Usage) :
    (run config registry usage).modules.map (·.name) =
      (EntityAssignment.ofUsage registry usage config.sharedEntity).entities.keys.toList := by
  show ((EntityAssignment.ofUsage registry usage config.sharedEntity).entities.entries.map
    fun entry => assemble config (generator config) _ entry.1 _).map (·.name) = _
  rw [List.map_map]
  rfl

theorem exists_model_named_iff {name : String} :
    (∃ model ∈ (run config registry usage).models, model.name = name) ↔
      ∃ draft, (drafts config registry).1.get? name = some draft := by
  constructor
  · rintro ⟨model, declared, rfl⟩
    obtain ⟨draft, found, -⟩ := get?_finals_iff.1 (mem_models_run_iff.1 declared)
    exact ⟨draft, found⟩
  · rintro ⟨draft, found⟩
    refine ⟨_, mem_models_of_draft found, ?_⟩
    rw [Model.name_rename]
    exact name_draft found

/-- All modules together declare one model for each schema that was generated. -/
theorem models_perm_drafts (config : Config) (registry : Registry) (usage : Usage) :
    ((run config registry usage).models.map (·.name)).Perm
      (drafts config registry).1.keys.toList := by
  have distinct : (drafts config registry).1.keys.toList.Nodup :=
    (drafts config registry).1.nodup_keys
  rw [List.perm_ext_iff_of_nodup (nodup_names_run config registry usage) distinct]
  intro name
  rw [List.mem_map, exists_model_named_iff, NameSet.mem_toList, NameMap.mem_keys_iff,
    Option.isSome_iff_exists]

/-- No schema is lost, repeated or misplaced: each registered one is listed once, under its entity,
and each that was generated has one model, in the module of that entity. -/
theorem run_loses_no_schema (config : Config) (registry : Registry) (usage : Usage) :
    (EntityAssignment.ofUsage registry usage config.sharedEntity).Partitions registry usage
        config.sharedEntity ∧
      (run config registry usage).Distributes config registry
        (.ofUsage registry usage config.sharedEntity) := by
  refine ⟨EntityAssignment.partitions_ofUsage registry usage config.sharedEntity, ?_, rfl, ?_, ?_, ?_⟩
  · exact map_name_modules config registry usage
  · exact models_perm_drafts config registry usage
  · intro module member model declared
    exact ((mem_models_iff member).1 declared).2
  · intro model declared
    exact get?_finals_iff.1 (mem_models_run_iff.1 declared)

end Generation

end ZodModules
