import ZodModules.Proofs.Generation.Failures
import ZodModules.Proofs.Generation.Uniqueness
import ZodModules.Proofs.Model.Collisions

/-!
# Reported collisions

The collisions that a run reports are those of its models, each once and under the schema that comes
later; and a run fails for them exactly if there are any, unless it fails for a reference that leads
nowhere.
-/

namespace ZodModules

/-- What making the exported names of some models distinct does to a report: it records the
collisions of the models, each under the schema that comes later and once. -/
structure Report.RecordsCollisions (config : Config) (models : List Model)
    (before after : Report) : Prop where
  recorded : ∀ name e, .collision e ∈ after.diagnostics name ↔
    .collision e ∈ before.diagnostics name ∨ name = e.schema ∧ e.Occurs config models
  once : ∀ e : SymbolCollision, e.Occurs config models →
    .collision e ∉ before.diagnostics e.schema →
      (after.diagnostics e.schema).count (.collision e) = 1

/-- A run fails for collisions exactly if its models have any and no reference leads nowhere, and
then lists them all. -/
structure Output.FailsForCollisions (config : Config) (output : Output) : Prop where
  fails : ∀ strict, (∃ errors, output.report.outcome strict = .error (.symbolCollision errors)) ↔
    (∃ e : SymbolCollision, e.Occurs config output.models) ∧ output.report.resolutionErrors = []
  listed : ∀ strict errors, output.report.outcome strict = .error (.symbolCollision errors) →
    ∀ e, e ∈ errors ↔ e.Occurs config output.models

namespace SymbolTable

theorem recordsCollisions_allocateAll {models : NameMap Model}
    (named : ∀ name model, models.get? name = some model → model.name = name) (config : Config)
    (report : Report) :
    report.RecordsCollisions config models.values (allocateAll models config report).2 := by
  have sorted := sorted_values named
  have recorded (name : String) (e : SymbolCollision) :
      .collision e ∈ (allocateAll models config report).2.diagnostics name ↔
        .collision e ∈ report.diagnostics name ∨ name = e.schema ∧ e.Occurs config models.values := by
    rw [allocateAll_eq, Report.mem_diagnostics_recordCollisions]
    refine or_congr_right ⟨?_, ?_⟩
    · rintro ⟨other, clash, rfl, same⟩
      cases same
      exact ⟨rfl, (mem_allClashes_iff_occurs sorted).1 clash⟩
    · rintro ⟨rfl, occurs⟩
      exact ⟨e, (mem_allClashes_iff_occurs sorted).2 occurs, rfl, rfl⟩
  refine ⟨recorded, fun e occurs unknown => ?_⟩
  have member := (recorded e.schema e).2 (Or.inr ⟨rfl, occurs⟩)
  rw [allocateAll_eq] at member ⊢
  have most := report.count_recordCollisions_le e.schema (allClashes config ∅ models.values)
    (.collision e)
  rw [List.count_eq_zero_of_not_mem unknown] at most
  exact Nat.le_antisymm most (List.count_pos_iff.2 member)

end SymbolTable

namespace Generation

variable {config : Config} {registry : Registry} {usage : Usage}

/-- No collision comes up while schemas are generated. -/
theorem collision_not_mem_drafts (config : Config) (registry : Registry) (name : String)
    (e : SymbolCollision) : .collision e ∉ (drafts config registry).2.diagnostics name := by
  rw [diagnostics_drafts]
  cases registry.get? name with
  | none => exact List.not_mem_nil
  | some schema =>
    dsimp only
    rw [Report.mem_foldl_added]
    rintro (impossible | noted)
    · cases impossible
    · unfold notesFor at noted
      split at noted
      · simp at noted
      · split at noted
        · rename_i ok
          exact not_isError_of_generate ok _ noted rfl
        · simp at noted

/-- The models that a run makes derive the names that the drafts do. -/
theorem derives_run_iff {space : NameSpace} {schema name : String} :
    space.Derives config (run config registry usage).models schema name ↔
      space.Derives config (drafts config registry).1.values schema name := by
  have same (draft : Model) (renames : NameMap String) :
      space.derived config (draft.rename renames) = space.derived config draft := by
    cases space <;> rfl
  constructor
  · rintro ⟨model, member, rfl, derived⟩
    obtain ⟨draft, found, renamed⟩ := get?_finals_iff.1 (mem_models_run_iff.1 member)
    rw [← renamed, same] at derived
    exact ⟨draft, mem_values_drafts found, name_draft found, derived⟩
  · rintro ⟨draft, member, rfl, derived⟩
    obtain ⟨⟨name, draft⟩, entry, rfl⟩ := List.mem_map.1 member
    have found := NameMap.mem_entries_iff.1 entry
    refine ⟨_, mem_models_of_draft found, Model.name_rename _, ?_⟩
    rw [same]
    exact derived

theorem mem_symbolCollisions_run_iff {e : SymbolCollision} :
    e ∈ (run config registry usage).report.symbolCollisions ↔
      e.Occurs config (run config registry usage).models := by
  have named (name : String) (draft : Model)
      (found : (drafts config registry).1.get? name = some draft) : draft.name = name :=
    name_draft found
  have unknown : e ∉ (drafts config registry).2.symbolCollisions := fun member => by
    obtain ⟨name, known⟩ := Report.mem_symbolCollisions_iff.1 member
    exact collision_not_mem_drafts config registry name e known
  rw [report_run, Report.mem_symbolCollisions_recordCollisions, or_iff_right unknown,
    SymbolTable.mem_allClashes_iff_occurs (SymbolTable.sorted_values named)]
  unfold SymbolCollision.Occurs
  simp only [derives_run_iff]

theorem failsForCollisions_run (config : Config) (registry : Registry) (usage : Usage) :
    (run config registry usage).FailsForCollisions config := by
  refine ⟨fun strict => ?_, fun strict errors outcome e => ?_⟩
  · simp only [Report.outcome_eq_symbolCollision_iff]
    constructor
    · rintro ⟨errors, resolved, nonempty, -⟩
      obtain ⟨e, member⟩ := List.exists_mem_of_ne_nil _ nonempty
      exact ⟨⟨e, mem_symbolCollisions_run_iff.1 member⟩, resolved⟩
    · rintro ⟨⟨e, occurs⟩, resolved⟩
      exact ⟨_, resolved, List.ne_nil_of_mem (mem_symbolCollisions_run_iff.2 occurs), rfl⟩
  · obtain ⟨-, -, rfl⟩ := Report.outcome_eq_symbolCollision_iff.1 outcome
    exact mem_symbolCollisions_run_iff

/-- Reports of collisions are sound and complete: of any models that stand under the names of their
schemas just the collisions are recorded, each once, and a run fails for them exactly if there are
any and no reference leads nowhere. -/
theorem collisions_are_exact (config : Config) :
    (∀ models : NameMap Model,
      (∀ name model, models.get? name = some model → model.name = name) →
        ∀ report : Report, report.RecordsCollisions config models.values
          (SymbolTable.allocateAll models config report).2) ∧
      ∀ registry usage, (run config registry usage).FailsForCollisions config :=
  ⟨fun _ named report => SymbolTable.recordsCollisions_allocateAll named config report,
    fun registry usage => failsForCollisions_run config registry usage⟩

/-- Two models of schemas whose names are written differently but come to the same type. -/
def profiles : NameMap Model :=
  let profile (name : String) : Model :=
    { name := name
      typeName := Naming.typeName name
      validatorName := Naming.typeName name ++ "Schema"
      validator := "z.string()"
      typing := .inferred
      enums := []
      references := []
      isRecursive := false
      properties := []
      isObject := false
      description := none
      example? := none }
  NameMap.ofList [("user_profile", profile "user_profile"), ("UserProfile", profile "UserProfile")]

/-- The later of the two is found to collide with the other one in its type. -/
theorem collision_profiles :
    (∀ name model, profiles.get? name = some model → model.name = name) ∧
      SymbolCollision.Occurs {} profiles.values ⟨"user_profile", "UserProfile", "UserProfile"⟩ := by
  have named : ∀ name model, profiles.get? name = some model → model.name = name := by
    have all : ∀ entry ∈ profiles.entries, entry.2.name = entry.1 := by decide +kernel
    intro name model found
    exact all _ (NameMap.mem_entries_iff.2 found)
  have records := (collisions_are_exact {}).1 profiles named ∅
  have reported : .collision ⟨"user_profile", "UserProfile", "UserProfile"⟩ ∈
      (SymbolTable.allocateAll profiles {} ∅).2.diagnostics "user_profile" := by
    decide +kernel
  rcases (records.recorded _ _).1 reported with impossible | ⟨-, occurs⟩
  · cases impossible
  · exact ⟨named, occurs⟩

end Generation

end ZodModules
