import ZodModules.Proofs.Generation.Distribution
import ZodModules.Proofs.Generation.Locality
import ZodModules.Proofs.Generation.Reports
import ZodModules.Proofs.Registry.Soundness

/-!
# Schemas that fail

A schema from which references lead to an unregistered name has no model and is reported once. The
others do not notice: their models, the modules that declare these and all that is reported of them
are the same without it.
-/

namespace ZodModules

open Relation (ReflTransGen)

namespace Output

/-- What an output says of the schemas of a registry that fail and of those that do not. -/
structure Isolates (output : Output) (registry : Registry) : Prop where
  modelled : ∀ name, (∃ model ∈ output.models, model.name = name) ↔
    registry.contains name ∧ ¬ registry.Fails name
  sound : ∀ name, registry.contains name → ¬ registry.Fails name →
    output.report.resolutions name = []
  /-- A schema that fails is reported once, with a reference to an unregistered name and the schema
  that makes it. -/
  failed : ∀ name, registry.contains name → registry.Fails name →
    ∃ e, output.report.resolutions name = [e] ∧ ReflTransGen registry.Cites name e.schema ∧
      registry.Dangles e.schema e.reference
  unregistered : ∀ name, ¬ registry.contains name → output.report.resolutions name = []
  outcome : ∀ strict, (∃ errors, output.report.outcome strict = .error (.resolution errors)) ↔
    ∃ source target, registry.Dangles source target
  /-- The run's error lists what is reported of the schemas, in order and without repetition. -/
  listed : ∀ strict errors, output.report.outcome strict = .error (.resolution errors) →
    errors ≠ [] ∧ errors.Pairwise ResolutionError.Before ∧ errors.Nodup ∧
      ∀ e, e ∈ errors ↔ ∃ name, output.report.resolutions name = [e]

/-- Another output agrees with one about the schemas of a registry that do not fail: it has the same
modules where these declare models, the same validators, and the same is reported of them. -/
structure Spares (output : Output) (registry : Registry) (other : Output) : Prop where
  modules : ∀ module ∈ output.modules, module.models ≠ [] → module ∈ other.modules
  validators : output.validators = other.validators
  diagnostics : ∀ name, registry.contains name → ¬ registry.Fails name →
    output.report.diagnostics name = other.report.diagnostics name

end Output

namespace Mapping

variable {scope : Scope}

/-- What was noted that fails every run. -/
def State.errors (state : State) : List Diagnostic := state.diagnostics.filter Diagnostic.isError

@[simp] theorem errors_degrade {before : State} {owner path shape : String} :
    (before.degrade owner path shape).errors = before.errors := by
  simp [State.errors, State.degrade, Diagnostic.isError]

@[simp] theorem errors_declare {before : State} {declaration : Model.EnumDeclaration} :
    (before.declare declaration).errors = before.errors := by
  unfold State.declare
  split <;> rfl

@[simp] theorem errors_visit {before : State} {target : String} :
    (before.visit scope target).errors = before.errors := by
  have refer : (before.refer scope.owner target).errors = before.errors := by
    unfold State.refer
    split <;> rfl
  unfold State.visit
  split
  · rw [← refer]
    simp [State.errors, State.close, Diagnostic.isError]
  · exact refer

/-- A mapping that succeeds notes nothing that fails a run. -/
theorem errors_rules : Rules scope
    (fun _ _ _ before _ after => after.errors = before.errors)
    (fun _ _ _ _ _ before _ after => after.errors = before.errors) where
  string run := by
    rcases yields_mapString run with ⟨-, rfl, -⟩ | ⟨-, -, rfl, -⟩ | ⟨-, rfl, -⟩
    · rfl
    · rfl
    · exact errors_declare
  number := rfl
  boolean := rfl
  null := rfl
  emptyObject := rfl
  dictionary _ _ ih := ih
  literalObject _ := errors_degrade
  record _ ih := ih
  untypedArray := errors_degrade
  array _ ih := ih
  oneOf _ ih := ih
  ref _ := errors_visit
  done := rfl
  skip _ ih := ih
  next _ _ first rest := rest.trans first

end Mapping

namespace Model

theorem importPairs_congr {model : Model} {entity : String} {owners owners' : NameMap String}
    {config : Config}
    (same : ∀ target, target ∈ model.references ∨ target ∈ model.dtoReferences →
      owners.get? target = owners'.get? target) :
    model.importPairs entity owners config = model.importPairs entity owners' config := by
  simp only [importPairs]
  congr 1
  · refine List.flatMap_congr fun target member => ?_
    rw [same target (Or.inl member)]
  · split
    · congr 1
      refine List.flatMap_congr fun target member => ?_
      rw [same target (Or.inr member)]
    · rfl

end Model

namespace Generation

open Mapping

variable {config : Config} {registry other : Registry} {usage : Usage} {name : String}

theorem errors_threads {scope : Scope} {properties : List (Schema.Property Schema)}
    {before after : State} {values : List Mapped}
    (threads : Threads scope properties before values after) :
    after.errors = before.errors := by
  induction threads with
  | nil => rfl
  | cons first _ ih => exact ih.trans (errors_rules.hold _ first)

/-- The generation of a schema that succeeds notes nothing that fails a run. -/
theorem not_isError_of_generate {schema : Schema} {closures : ClosureIndex} {generated : Generated}
    (ok : generate config name schema registry closures = .ok generated) :
    ∀ diagnostic ∈ generated.diagnostics, ¬ diagnostic.isError := by
  obtain ⟨root, state, run, rfl⟩ := generate_eq_ok_iff.1 ok
  have errors : state.errors = (∅ : State).errors := by
    rcases generateRoot_cases run with
      ⟨properties, required, metadata, values, -, threads, -⟩ | ⟨-, mapped, mapping, -⟩
    · exact errors_threads threads
    · exact errors_rules.hold schema mapping
  exact List.filter_eq_nil_iff.1 errors

/-- What is noted of a schema that does not fail comes from its generation. -/
theorem notesFor_of_generate {schema : Schema} {generated : Generated}
    (registered : registry.contains name) (resolves : registry.Resolves name)
    (ok : generate config name schema registry (.ofRegistry registry) = .ok generated) :
    notesFor (generator config) registry (.ofRegistry registry) name schema =
      generated.diagnostics := by
  obtain ⟨reached, closure⟩ := Registry.closure_isOk_iff.2 ⟨registered, resolves⟩
  have run : (generator config).generate name schema registry (.ofRegistry registry) =
    .ok generated := ok
  unfold notesFor
  rw [ClosureIndex.get?_ofRegistry, if_pos registered, closure, run]

theorem notesFor_of_closure_error {generator : Generator} {schema : Schema} {e : ResolutionError}
    (registered : registry.contains name) (failed : registry.closure name = .error e) :
    notesFor generator registry (.ofRegistry registry) name schema = [.resolution e] := by
  unfold notesFor
  rw [ClosureIndex.get?_ofRegistry, if_pos registered, failed]

/-- A schema is reported to refer to an unregistered name exactly if it fails, and then once. -/
theorem resolutions_drafts (config : Config) (registry : Registry) (name : String) :
    (drafts config registry).2.resolutions name =
      if registry.contains name then
        match registry.closure name with
        | .ok _ => []
        | .error e => [e]
      else [] := by
  unfold Report.resolutions
  rw [diagnostics_drafts]
  cases registered : registry.get? name with
  | none =>
    have missing : ¬ registry.contains name := by
      show ¬ (registry.get? name).isSome
      rw [registered]
      exact Bool.false_ne_true
    rw [if_neg missing]
    rfl
  | some schema =>
    have contains := Registry.contains_of_get? registered
    rw [if_pos contains]
    cases closure : registry.closure name with
    | error e =>
      simp only [notesFor_of_closure_error contains closure]
      rfl
    | ok reached =>
      have resolves := (Registry.resolves_of_closure closure).2
      obtain ⟨generated, ok⟩ := exists_generate config name (ClosureIndex.ofRegistry registry)
        fun target member => resolves name target .refl ⟨schema, registered, member⟩
      simp only [notesFor_of_generate contains resolves ok]
      rw [List.filterMap_eq_nil_iff]
      intro diagnostic member
      rcases Report.mem_foldl_added.1 member with impossible | noted
      · cases impossible
      · have harmless := not_isError_of_generate ok diagnostic noted
        cases diagnostic with
        | resolution e => exact absurd rfl harmless
        | _ => rfl

/-- A module depends on the owners of the schemas that its models refer to and of no others. -/
theorem assemble_congr {generator : Generator} {owners owners' : NameMap String} {entity : String}
    {models : List Model} (nodup : (models.map (·.name)).Nodup)
    (same : ∀ model ∈ models, ∀ target, target ∈ model.references ∨ target ∈ model.dtoReferences →
      owners.get? target = owners'.get? target) :
    assemble config generator owners entity models =
      assemble config generator owners' entity models := by
  have imports : Model.moduleImports (assemble config generator owners entity models).models entity
        owners config =
      Model.moduleImports (assemble config generator owners entity models).models entity owners'
        config := by
    unfold Model.moduleImports
    refine List.foldl_ext _ _ _ fun imports model declared => ?_
    have inside := (models_assemble_perm nodup).mem_iff.1 declared
    unfold Model.imports
    rw [Model.importPairs_congr (same model inside)]
  unfold assemble at imports ⊢
  simp only [imports]

/-- The models of an entity stand in the order of their names before they are put in order. -/
theorem sorted_modelsOf {entity : String} {schemas : List String}
    (listed : (entity, schemas) ∈
      (EntityAssignment.ofUsage registry usage config.sharedEntity).entities.entries) :
    (modelsOf config registry schemas).Pairwise (·.name < ·.name) := by
  have all := EntityAssignment.members_ofUsage registry usage config.sharedEntity entity
  unfold EntityAssignment.members at all
  rw [NameMap.mem_entries_iff.1 listed, Option.getD_some] at all
  rw [all]
  refine List.Pairwise.filterMap _ ?_ (registry.names.sorted.filter _)
  intro name name' less model found model' found'
  rw [name_of_get?_finals found, name_of_get?_finals found']
  exact less

section Siblings

variable (same : registry.SameSound other)

include same

theorem generate_of_sameSound {schema : Schema} {generated : Generated}
    (found : registry.get? name = some schema) (resolves : registry.Resolves name)
    (ok : generate config name schema registry (.ofRegistry registry) = .ok generated) :
    generate config name schema other (.ofRegistry other) = .ok generated :=
  generate_of_agreeFrom (same.agreeFrom (Registry.contains_of_get? found) resolves) found ok

theorem get?_drafts_of_sameSound {draft : Model}
    (drafted : (drafts config registry).1.get? name = some draft) :
    (drafts config other).1.get? name = some draft := by
  obtain ⟨schema, diagnostics, found, resolves, ok⟩ := get?_drafts_iff.1 drafted
  have registered := Registry.contains_of_get? found
  refine get?_drafts_iff.2 ⟨schema, diagnostics, ?_, (same.resolves registered resolves).2, ?_⟩
  · rw [← same.get? registered resolves, found]
  · exact generate_of_sameSound same found resolves ok

theorem drafts_of_sameSound : (drafts config registry).1 = (drafts config other).1 := by
  apply NameMap.ext_get?
  intro name
  apply Option.ext
  intro draft
  exact ⟨get?_drafts_of_sameSound same, get?_drafts_of_sameSound same.symm⟩

/-- What is reported of a schema that does not fail before the exported names are made distinct. -/
theorem diagnostics_drafts_of_sameSound (registered : registry.contains name)
    (resolves : registry.Resolves name) :
    (drafts config registry).2.diagnostics name = (drafts config other).2.diagnostics name := by
  obtain ⟨schema, found⟩ := Option.isSome_iff_exists.1 registered
  have found : registry.get? name = some schema := found
  obtain ⟨registered', resolves'⟩ := same.resolves registered resolves
  obtain ⟨generated, ok⟩ := exists_generate config name (ClosureIndex.ofRegistry registry)
    fun target member => resolves name target .refl ⟨schema, found, member⟩
  rw [diagnostics_drafts, diagnostics_drafts, ← same.get? registered resolves, found]
  simp only [notesFor_of_generate registered resolves ok,
    notesFor_of_generate registered' resolves' (generate_of_sameSound same found resolves ok)]

/-- Making the exported names distinct starts from the same models, so it ends with the same ones. -/
theorem finals_of_sameSound : finals config registry = finals config other := by
  unfold finals
  rw [SymbolTable.allocateAll_eq, SymbolTable.allocateAll_eq config (drafts config other).1,
    drafts_of_sameSound same]

theorem diagnostics_run_of_sameSound (registered : registry.contains name)
    (resolves : registry.Resolves name) :
    (run config registry usage).report.diagnostics name =
      (run config other usage).report.diagnostics name := by
  rw [report_run, report_run, drafts_of_sameSound same]
  exact Report.diagnostics_recordCollisions_congr
    (diagnostics_drafts_of_sameSound same registered resolves) _

/-- A schema that does not fail has the same entity. -/
theorem owners_of_sameSound (registered : registry.contains name)
    (resolves : registry.Resolves name) :
    (run config registry usage).owners.get? name = (run config other usage).owners.get? name := by
  show (EntityAssignment.ofUsage registry usage config.sharedEntity).owners.get? name =
    (EntityAssignment.ofUsage other usage config.sharedEntity).owners.get? name
  rw [EntityAssignment.get?_owners_ofUsage, EntityAssignment.get?_owners_ofUsage,
    if_pos registered, if_pos (same.resolves registered resolves).1]

/-- An entity has the same models of schemas in either run. -/
theorem modelsOf_of_sameSound {entity : String} {schemas schemas' : List String}
    (listed : (entity, schemas) ∈
      (EntityAssignment.ofUsage registry usage config.sharedEntity).entities.entries)
    (listed' : (entity, schemas') ∈
      (EntityAssignment.ofUsage other usage config.sharedEntity).entities.entries) :
    modelsOf config registry schemas = modelsOf config other schemas' := by
  refine Listing.eq_of_mem_iff (sorted_modelsOf listed) (sorted_modelsOf listed') ?_
  intro model
  rw [mem_modelsOf_iff, mem_modelsOf_iff, EntityAssignment.mem_entity_iff listed,
    EntityAssignment.mem_entity_iff listed', ← finals_of_sameSound same]
  refine and_congr_left fun found => ?_
  obtain ⟨registered, resolves⟩ := exists_final_iff.1 ⟨model, found⟩
  have owners : (run config registry usage).owners.get? model.name =
      (run config other usage).owners.get? model.name :=
    owners_of_sameSound same registered resolves
  exact owners ▸ Iff.rfl

/-- A module with a model is the same in either run. -/
theorem mem_modules_of_sameSound {module : EntityModule}
    (member : module ∈ (run config registry usage).modules) (inhabited : module.models ≠ []) :
    module ∈ (run config other usage).modules := by
  obtain ⟨model, declared⟩ := List.exists_mem_of_ne_nil _ inhabited
  obtain ⟨found, owner⟩ := (mem_models_iff member).1 declared
  obtain ⟨entity, schemas, listed, rfl⟩ := mem_modules_iff.1 member
  obtain ⟨registered, resolves⟩ := exists_final_iff.1 ⟨model, found⟩
  rw [owners_of_sameSound same registered resolves] at owner
  obtain ⟨entity', schemas', listed', owner'⟩ := EntityAssignment.exists_entity_of_contains usage
    config.sharedEntity (same.resolves registered resolves).1
  obtain rfl : entity' = entity := Option.some.inj (owner'.symm.trans owner)
  refine mem_modules_iff.2 ⟨entity', schemas', listed', ?_⟩
  rw [← modelsOf_of_sameSound same listed listed']
  refine (assemble_congr (nodup_names_modelsOf (EntityAssignment.nodup_entity listed)) ?_).symm
  intro model inside target cited
  have found := (mem_modelsOf_iff.1 inside).2
  obtain ⟨registered, resolves⟩ := exists_final_iff.1 ⟨model, found⟩
  have refers : registry.Refers model.name target := by
    rcases cited with cited | cited
    · exact (refers_of_mem_references found cited).1
    · exact refers_of_mem_dtoReferences found cited
  have reaches : registry.Reaches model.name target := .single refers
  exact owners_of_sameSound same (resolves.contains reaches) (resolves.of_reaches reaches)

end Siblings

/-- What a run reports of a schema to lead nowhere is what its closure failed with. -/
theorem resolutions_run (config : Config) (registry : Registry) (usage : Usage) (name : String) :
    (run config registry usage).report.resolutions name =
      if registry.contains name then
        match registry.closure name with
        | .ok _ => []
        | .error e => [e]
      else [] :=
  (resolutions_run_eq_drafts config registry usage name).trans
    (resolutions_drafts config registry name)

/-- A schema that fails is reported once. -/
theorem exists_resolution_of_fails (config : Config) (usage : Usage)
    (registered : registry.contains name) (fails : registry.Fails name) :
    ∃ e, (run config registry usage).report.resolutions name = [e] ∧
      ReflTransGen registry.Cites name e.schema ∧ registry.Dangles e.schema e.reference := by
  cases closure : registry.closure name with
  | ok reached =>
    have resolves := (Registry.resolves_of_closure closure).2
    exact absurd fails (Registry.resolves_iff_not_fails.1 resolves)
  | error e =>
    obtain ⟨reached, cites, missing⟩ := Registry.refers_of_closure_error registered closure
    rw [Registry.refers_eq_cites] at reached cites
    refine ⟨e, ?_, reached, cites, missing⟩
    rw [resolutions_run, if_pos registered, closure]

/-- Whatever is reported to lead nowhere does, and is all that is reported of its kind. -/
theorem dangles_of_mem_resolutions {e : ResolutionError}
    (member : e ∈ (run config registry usage).report.resolutions name) :
    (run config registry usage).report.resolutions name = [e] ∧
      registry.Dangles e.schema e.reference := by
  rw [resolutions_run] at member ⊢
  by_cases registered : registry.contains name
  · rw [if_pos registered] at member ⊢
    cases closure : registry.closure name with
    | ok reached =>
      rw [closure] at member
      cases member
    | error other =>
      rw [closure] at member
      obtain rfl : e = other := List.mem_singleton.1 member
      obtain ⟨-, cites, missing⟩ := Registry.refers_of_closure_error registered closure
      rw [Registry.refers_eq_cites] at cites
      exact ⟨rfl, cites, missing⟩
  · rw [if_neg registered] at member
    cases member

/-- The errors that a run fails with are those of its schemas, each once. -/
theorem mem_unresolved_run_iff {e : ResolutionError} :
    e ∈ (run config registry usage).report.unresolved ↔
      ∃ name, (run config registry usage).report.resolutions name = [e] := by
  rw [Report.mem_unresolved_iff]
  constructor
  · rintro ⟨name, listed⟩
    exact ⟨name, (dangles_of_mem_resolutions listed).1⟩
  · rintro ⟨name, listed⟩
    exact ⟨name, listed ▸ List.mem_singleton_self e⟩

/-- A registered name has a model exactly if it does not fail; otherwise it is reported once, with a
reference to an unregistered name that it leads to. -/
theorem isolates_run (config : Config) (registry : Registry) (usage : Usage) :
    (run config registry usage).Isolates registry := by
  refine ⟨?_, ?_, ?_, ?_, ?_, ?_⟩
  · intro name
    rw [exists_model_named_iff, exists_draft_iff, Registry.resolves_iff_not_fails]
  · intro name registered sound
    have resolves := Registry.resolves_iff_not_fails.2 sound
    obtain ⟨reached, closure⟩ := Registry.closure_isOk_iff.2 ⟨registered, resolves⟩
    rw [resolutions_run, if_pos registered, closure]
  · intro name registered fails
    exact exists_resolution_of_fails config usage registered fails
  · intro name unregistered
    rw [resolutions_run, if_neg unregistered]
  · intro strict
    simp only [Report.outcome_eq_resolution_iff]
    constructor
    · rintro ⟨errors, nonempty, -⟩
      obtain ⟨e, member⟩ := List.exists_mem_of_ne_nil _ nonempty
      obtain ⟨name, listed⟩ := Report.mem_unresolved_iff.1 member
      exact ⟨e.schema, e.reference, (dangles_of_mem_resolutions listed).2⟩
    · rintro ⟨source, target, dangles⟩
      obtain ⟨⟨schema, found, cited⟩, missing⟩ := dangles
      have fails : registry.Fails source :=
        ⟨source, target, .refl, ⟨schema, found, cited⟩, missing⟩
      obtain ⟨e, listed, -⟩ := exists_resolution_of_fails config usage
        (Registry.contains_of_get? found) fails
      exact ⟨_, List.ne_nil_of_mem (mem_unresolved_run_iff.2 ⟨source, listed⟩), rfl⟩
  · intro strict errors outcome
    obtain ⟨nonempty, rfl⟩ := Report.outcome_eq_resolution_iff.1 outcome
    exact ⟨nonempty, Report.before_unresolved _, Listing.nodup_eraseDups _,
      fun e => mem_unresolved_run_iff⟩

/-- A failing schema neither stops nor changes the others: models are missing and references
reported just for the schemas that fail, and whatever a run declares, exports and reports of the
others is the same in a run on any registry with the same schemas that do not fail. -/
theorem failures_are_isolated (config : Config) (registry : Registry) (usage : Usage) :
    (run config registry usage).Isolates registry ∧
      ∀ other, registry.SameSound other →
        (run config registry usage).Spares registry (run config other usage) := by
  refine ⟨isolates_run config registry usage, fun other same => ⟨?_, ?_, ?_⟩⟩
  · intro module member inhabited
    exact mem_modules_of_sameSound same member inhabited
  · have validators (registry' : Registry) : (run config registry' usage).validators =
        (finals config registry').mapEntries fun _ model => model.validatorName := rfl
    rw [validators, validators, finals_of_sameSound same]
  · intro name registered sound
    exact diagnostics_run_of_sameSound same registered (Registry.resolves_iff_not_fails.2 sound)

section Library

/-- A loan refers to a lost book and a reader to that loan, but a title does well by itself. -/
def library : Registry :=
  .ofList [("Loan", .ofKind (.ref "Lost")), ("Reader", .ofKind (.array (some (.ofKind (.ref "Loan"))))),
    ("Title", .ofKind (.string {}))]

/-- The title alone. -/
def titles : Registry := .ofList [("Title", .ofKind (.string {}))]

theorem dangles_library : library.Dangles "Loan" "Lost" :=
  ⟨⟨_, rfl, .ref⟩, by decide +kernel⟩

theorem fails_library : library.Fails "Loan" ∧ library.Fails "Reader" :=
  ⟨⟨"Loan", "Lost", .refl, dangles_library⟩,
    ⟨"Loan", "Lost", .single ⟨_, rfl, .items .ref⟩, dangles_library⟩⟩

theorem not_fails_title : ¬ library.Fails "Title" ∧ ¬ titles.Fails "Title" := by
  have sound {registry : Registry} (found : registry.get? "Title" = some (.ofKind (.string {}))) :
      ¬ registry.Fails "Title" := by
    have closure := Registry.closure_of_refs_eq_nil found rfl
    exact Registry.resolves_iff_not_fails.1 (Registry.resolves_of_closure closure).2
  exact ⟨sound rfl, sound rfl⟩

theorem sameSound_library : library.SameSound titles := by
  intro name schema
  constructor
  · rintro ⟨found, sound⟩
    have member : (name, schema) ∈ library.schemas.entries := NameMap.mem_entries_iff.2 found
    change (name, schema) ∈ [_, _, _] at member
    simp only [List.mem_cons, Prod.mk.injEq, List.not_mem_nil, or_false] at member
    rcases member with ⟨rfl, rfl⟩ | ⟨rfl, rfl⟩ | ⟨rfl, rfl⟩
    · exact absurd fails_library.1 sound
    · exact absurd fails_library.2 sound
    · exact ⟨rfl, not_fails_title.2⟩
  · rintro ⟨found, -⟩
    have member : (name, schema) ∈ titles.schemas.entries := NameMap.mem_entries_iff.2 found
    change (name, schema) ∈ [_] at member
    simp only [List.mem_cons, Prod.mk.injEq, List.not_mem_nil, or_false] at member
    obtain ⟨rfl, rfl⟩ := member
    exact ⟨rfl, not_fails_title.1⟩

/-- In the library the title has its model, as if it were alone, while the loan and the reader are
reported and fail the run. -/
theorem title_survives :
    (∃ model ∈ (run {} library ∅).models, model.name = "Title") ∧
      (¬ ∃ model ∈ (run {} library ∅).models, model.name = "Reader") ∧
      (∃ e, (run {} library ∅).report.resolutions "Reader" = [e] ∧
        library.Dangles e.schema e.reference) ∧
      (∃ errors, (run {} library ∅).report.outcome false = .error (.resolution errors) ∧
        errors ≠ []) ∧
      ∀ module ∈ (run {} library ∅).modules, module.models ≠ [] →
        module ∈ (run {} titles ∅).modules := by
  obtain ⟨isolates, spares⟩ := failures_are_isolated {} library ∅
  obtain ⟨e, reported, -, dangles⟩ := isolates.failed "Reader" (by decide +kernel) fails_library.2
  obtain ⟨errors, outcome⟩ := (isolates.outcome false).2 ⟨_, _, dangles_library⟩
  refine ⟨?_, ?_, ⟨e, reported, dangles⟩, ⟨errors, outcome, ?_⟩, ?_⟩
  · exact (isolates.modelled "Title").2 ⟨by decide +kernel, not_fails_title.1⟩
  · intro declared
    exact ((isolates.modelled "Reader").1 declared).2 fails_library.2
  · exact (isolates.listed false errors outcome).1
  · exact (spares titles sameSound_library).modules

end Library

end Generation

end ZodModules
