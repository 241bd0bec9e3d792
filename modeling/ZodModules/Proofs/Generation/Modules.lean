import ZodModules.Proofs.Entity.Partition
import ZodModules.Proofs.Generation.Models
import ZodModules.Proofs.Order.Precedence

/-!
# Modules of a run

The module of an entity declares the models of the schemas that it owns, each once, and a model that
another one refers to stands first unless the reference closes a cycle.
-/

namespace ZodModules.Generation

open Relation (TransGen)

variable {config : Config} {registry : Registry} {usage : Usage}

/-- The models of a run, their exported names made distinct. -/
def finals (config : Config) (registry : Registry) : NameMap Model :=
  (SymbolTable.allocateAll (drafts config registry).1 config (drafts config registry).2).1

/-- The new names of the enums of a schema. -/
def newNames (config : Config) (registry : Registry) (schema : String) : NameMap String :=
  SymbolTable.renamesOf config (drafts config registry).1 (drafts config registry).2 schema

theorem get?_finals_iff {name : String} {model : Model} :
    (finals config registry).get? name = some model ↔
      ∃ draft, (drafts config registry).1.get? name = some draft ∧
        draft.rename (newNames config registry name) = model := by
  unfold finals newNames
  rw [SymbolTable.get?_allocateAll, Option.map_eq_some_iff]

theorem refers_draft {name : String} {draft : Model}
    (found : (drafts config registry).1.get? name = some draft) :
    ∃ schema, registry.get? name = some schema ∧
      ModelRefers config name schema registry (ClosureIndex.ofRegistry registry) draft := by
  obtain ⟨schema, diagnostics, registered, -, ok⟩ := get?_drafts_iff.1 found
  exact ⟨schema, registered, refers_generate ok⟩

theorem name_of_get?_finals {name : String} {model : Model}
    (found : (finals config registry).get? name = some model) : model.name = name := by
  obtain ⟨draft, drafted, rfl⟩ := get?_finals_iff.1 found
  obtain ⟨schema, -, refers⟩ := refers_draft drafted
  exact refers.name

/-- The references of a model are references of its schema to others. -/
theorem refers_of_mem_references {name target : String} {model : Model}
    (found : (finals config registry).get? name = some model) (member : target ∈ model.references) :
    registry.Refers name target ∧ target ≠ name := by
  obtain ⟨draft, drafted, rfl⟩ := get?_finals_iff.1 found
  obtain ⟨schema, registered, refers⟩ := refers_draft drafted
  obtain ⟨cited, different⟩ := refers.references target member
  exact ⟨⟨schema, registered, cited⟩, different⟩

/-- A schema has a model exactly if it is registered and resolves. -/
theorem exists_final_iff {name : String} :
    (∃ model, (finals config registry).get? name = some model) ↔
      registry.contains name ∧ registry.Resolves name := by
  rw [← exists_draft_iff config]
  constructor
  · rintro ⟨model, found⟩
    obtain ⟨draft, found, -⟩ := get?_finals_iff.1 found
    exact ⟨draft, found⟩
  · rintro ⟨draft, found⟩
    exact ⟨_, get?_finals_iff.2 ⟨draft, found, rfl⟩⟩

/-- The models of some schemas, before they are put in order. -/
def modelsOf (config : Config) (registry : Registry) (schemas : List String) : List Model :=
  schemas.filterMap (finals config registry).get?

theorem mem_modelsOf_iff {schemas : List String} {model : Model} :
    model ∈ modelsOf config registry schemas ↔
      model.name ∈ schemas ∧ (finals config registry).get? model.name = some model := by
  unfold modelsOf
  rw [List.mem_filterMap]
  constructor
  · rintro ⟨name, member, found⟩
    have same := name_of_get?_finals found
    rw [same]
    exact ⟨member, found⟩
  · rintro ⟨member, found⟩
    exact ⟨model.name, member, found⟩

theorem nodup_names_modelsOf {schemas : List String} (nodup : schemas.Nodup) :
    ((modelsOf config registry schemas).map (·.name)).Nodup := by
  unfold modelsOf
  rw [List.map_filterMap]
  refine nodup.filterMap ?_
  intro first second name of_first of_second
  obtain ⟨model, found, rfl⟩ := Option.map_eq_some_iff.1 of_first
  obtain ⟨other, found', same⟩ := Option.map_eq_some_iff.1 of_second
  rw [← name_of_get?_finals found, ← name_of_get?_finals found', same]

/-- The modules are those assembled for the entities. -/
theorem mem_modules_iff {module : EntityModule} :
    module ∈ (run config registry usage).modules ↔
      ∃ entity schemas,
        (entity, schemas) ∈
          (EntityAssignment.ofUsage registry usage config.sharedEntity).entities.entries ∧
        assemble config (generator config) (run config registry usage).owners entity
          (modelsOf config registry schemas) = module := by
  constructor
  · intro member
    obtain ⟨⟨entity, schemas⟩, listed, rfl⟩ := List.mem_map.1 member
    exact ⟨entity, schemas, listed, rfl⟩
  · rintro ⟨entity, schemas, listed, rfl⟩
    exact List.mem_map.2 ⟨(entity, schemas), listed, rfl⟩

/-- The members that the order of an entity is made for. -/
def membersOf (models : List Model) : DeclarationOrder.Members :=
  models.map fun model => (model.name, model.references)

theorem map_fst_membersOf (models : List Model) :
    (membersOf models).map Prod.fst = models.map (·.name) := by
  rw [membersOf, List.map_map]
  rfl

theorem order_perm_names {models : List Model} (nodup : (models.map (·.name)).Nodup) :
    (DeclarationOrder.ofMembers (membersOf models)).order.Perm (models.map (·.name)) := by
  refine (List.perm_ext_iff_of_nodup (DeclarationOrder.order_nodup _) nodup).2 ?_
  intro name
  rw [(DeclarationOrder.order_perm _).mem_iff, NameSet.mem_toList,
    DeclarationOrder.mem_names_iff, map_fst_membersOf]

/-- What a module declares are the models that it is assembled from. -/
theorem models_assemble_perm {generator : Generator} {owners : NameMap String} {entity : String}
    {models : List Model} (nodup : (models.map (·.name)).Nodup) :
    (assemble config generator owners entity models).models.Perm models :=
  DeclarationOrder.arrange_perm nodup (order_perm_names nodup)

/-- A module declares the models of the schemas that its entity owns. -/
theorem mem_models_iff {module : EntityModule}
    (member : module ∈ (run config registry usage).modules) {model : Model} :
    model ∈ module.models ↔
      (finals config registry).get? model.name = some model ∧
        (run config registry usage).owners.get? model.name = some module.name := by
  obtain ⟨entity, schemas, listed, rfl⟩ := mem_modules_iff.1 member
  rw [(models_assemble_perm (nodup_names_modelsOf (EntityAssignment.nodup_entity listed))).mem_iff,
    mem_modelsOf_iff, EntityAssignment.mem_entity_iff listed]
  exact and_comm

/-- The dependencies of members of an entity are references of their schemas. -/
theorem refers_of_dependsOn {schemas : List String} {name other : String}
    (depends : DeclarationOrder.DependsOn (membersOf (modelsOf config registry schemas)) name
      other) :
    registry.Refers name other := by
  obtain ⟨⟨references, member, cited⟩, -, -⟩ := DeclarationOrder.dependsOn_iff.1 depends
  obtain ⟨model, inside, same⟩ := List.mem_map.1 member
  cases same
  exact (refers_of_mem_references (mem_modelsOf_iff.1 inside).2 cited).1

/-- Of two models of a module the one that the other refers to stands first, unless the reference
closes a cycle. -/
theorem precedes_of_mem_references {module : EntityModule}
    (member : module ∈ (run config registry usage).modules) {model referred : Model}
    (declared : model ∈ module.models) (other : referred ∈ module.models)
    (refers : referred.name ∈ model.references) :
    [referred, model].Sublist module.models ∨ registry.Reaches referred.name model.name := by
  obtain ⟨entity, schemas, listed, rfl⟩ := mem_modules_iff.1 member
  have nodup : ((modelsOf config registry schemas).map (·.name)).Nodup :=
    nodup_names_modelsOf (EntityAssignment.nodup_entity listed)
  have declared : model ∈ modelsOf config registry schemas :=
    (models_assemble_perm nodup).mem_iff.1 declared
  have other : referred ∈ modelsOf config registry schemas :=
    (models_assemble_perm nodup).mem_iff.1 other
  obtain ⟨-, different⟩ := refers_of_mem_references (mem_modelsOf_iff.1 declared).2 refers
  have listed_name (m : Model) (present : m ∈ modelsOf config registry schemas) :
      m.name ∈ DeclarationOrder.names (membersOf (modelsOf config registry schemas)) := by
    rw [DeclarationOrder.mem_names_iff, map_fst_membersOf]
    exact List.mem_map_of_mem present
  have depends : DeclarationOrder.DependsOn (membersOf (modelsOf config registry schemas))
      model.name referred.name :=
    DeclarationOrder.dependsOn_iff.2
      ⟨⟨model.references, List.mem_map.2 ⟨model, declared, rfl⟩, refers⟩, different,
        listed_name referred other⟩
  rcases DeclarationOrder.order_precedes depends (listed_name model declared) with before | path
  · exact Or.inl (DeclarationOrder.sublist_arrange nodup (order_perm_names nodup) other declared
      before)
  · exact Or.inr (TransGen.mono (fun _ _ => refers_of_dependsOn) _ _ path)

end ZodModules.Generation
