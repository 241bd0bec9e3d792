import ZodModules.Proofs.Generation.Uniqueness

/-!
# Renamed enums

The allocation of names gives each enum of some generated models the least number under which its
names are unused. The enums that are whole schemas choose before those of properties, and what
follows from the names of the schemas is never renamed.
-/

namespace ZodModules.Generation

open Mapping Model SymbolTable

/-- Each of the models was generated for the schema that it stands under. -/
def AreGenerated (models : NameMap Model) : Prop :=
  ∀ name model, models.get? name = some model → ∃ config schema registry closures diagnostics,
    generate config name schema registry closures = .ok ⟨model, diagnostics⟩

/-- The models in the end, when each enum has got the least number under which its names are
unused. -/
structure LeastNumbered (config : Config) (models finals : NameMap Model)
    (number : String → EnumDeclaration → Nat) : Prop where
  least : ∀ earlier schema declaration later,
    declarations models = earlier ++ (schema, declaration) :: later →
      IsLeast {k | 1 ≤ k ∧ Unused config models.values
          (earlier.map fun d => d.2.numbered (number d.1 d.2)) (declaration.numbered k)}
        (number schema declaration)
  /-- Only the constants of enums differ, by their numbers; those of schemas stay. -/
  renamed : ∀ name,
    (finals.get? name).map (fun final =>
        (final.typeName, final.validatorName, final.enums.map (·.constant))) =
      (models.get? name).map fun model =>
        (model.typeName, model.validatorName,
          model.enums.map fun e => Model.numbered e.constant (number name e))
  distinct : (finals.values.flatMap fun final => final.enums.map (·.constant)).Nodup
  /-- No constant is the validator or the class of a schema. -/
  apart : ∀ final ∈ finals.values, ∀ e ∈ final.enums, ∀ other ∈ finals.values,
    e.constant ∉ other.validatorName :: other.classNames config

section Models

variable {models : NameMap Model}

theorem distinctEnums_of_areGenerated (generated : AreGenerated models) (name : String)
    (model : Model) (found : models.get? name = some model) : model.DistinctEnums := by
  obtain ⟨config, schema, registry, closures, diagnostics, ok⟩ := generated name model found
  exact distinctEnums_of_collected (collected_generate ok)

variable (distinct : ∀ name model, models.get? name = some model → model.DistinctEnums)
  (config : Config) (report : Report)

theorem exists_of_mem_finals {final : Model}
    (member : final ∈ (allocateAll models config report).1.values) :
    ∃ name model, models.get? name = some model ∧
      model.rename (renamesOf config models report name) = final := by
  obtain ⟨⟨name, final⟩, entry, rfl⟩ := List.mem_map.1 member
  have found := NameMap.mem_entries_iff.1 entry
  rw [get?_allocateAll] at found
  obtain ⟨model, found, same⟩ := Option.map_eq_some_iff.1 found
  exact ⟨name, model, found, same⟩

include distinct

/-- The constant that an enum ends up under follows from the name of no schema. -/
theorem not_derives_constant {name : String} {model : Model}
    (found : models.get? name = some model) {e : EnumDeclaration} (member : e ∈ model.enums)
    (schema : String) :
    ¬ NameSpace.values.Derives config models.values schema
      (Model.numbered e.constant (numberOf config models report name e)) := by
  obtain ⟨earlier, later, split⟩ :=
    List.append_of_mem (mem_declarations_iff.2 ⟨model, found, member⟩)
  have least := isLeast_numberOf config report distinct split
  exact (least.1.2 .values _ rfl).1 schema

theorem leastNumbered_allocateAll :
    LeastNumbered config models (allocateAll models config report).1
      (numberOf config models report) := by
  refine ⟨?_, ?_, ?_, ?_⟩
  · exact fun earlier schema declaration later split =>
      isLeast_numberOf config report distinct split
  · intro name
    rw [get?_allocateAll]
    cases found : models.get? name with
    | none => rfl
    | some model =>
      rw [Option.map_some, Option.map_some, Option.map_some,
        ← constants_rename config report distinct found]
      rfl
  · have constants : ((allocateAll models config report).1.values.flatMap fun final =>
          final.enums.map (·.constant)) =
        models.entries.flatMap fun entry => entry.2.enums.map fun e =>
          Model.numbered e.constant (numberOf config models report entry.1 e) := by
      rw [fst_allocateAll]
      unfold NameMap.values NameMap.mapEntries
      rw [List.map_map, List.flatMap_map]
      refine List.flatMap_congr fun entry member => ?_
      exact constants_rename config report distinct (NameMap.mem_entries_iff.1 member)
    rw [constants]
    exact nodup_numbered_constants config report distinct
  · intro final of_final e inside other of_other shared
    obtain ⟨name, model, found, rfl⟩ := exists_of_mem_finals config report of_final
    obtain ⟨name', model', found', rfl⟩ := exists_of_mem_finals config report of_other
    have listed : e.constant ∈ (model.rename (renamesOf config models report name)).enums.map
        (·.constant) := List.mem_map_of_mem inside
    rw [constants_rename config report distinct found] at listed
    obtain ⟨first, member, same⟩ := List.mem_map.1 listed
    refine not_derives_constant distinct config report found member model'.name ?_
    rw [same]
    exact ⟨model', List.mem_map.2 ⟨_, NameMap.mem_entries_iff.2 found', rfl⟩, rfl, shared⟩

end Models

/-- Renaming enums is an allocation of least numbers: of any generated models each enum gets the
least number from one on under which neither its constant nor its type is taken by a schema or by an
enum that chose before, and what follows from the names of schemas stays. -/
theorem enums_get_least_numbers (config : Config) (models : NameMap Model) (report : Report)
    (generated : AreGenerated models) :
    ∃ number, LeastNumbered config models (allocateAll models config report).1 number :=
  ⟨_, leastNumbered_allocateAll (distinctEnums_of_areGenerated generated) config report⟩

theorem areGenerated_drafts (config : Config) (registry : Registry) :
    AreGenerated (drafts config registry).1 := by
  intro name draft found
  obtain ⟨schema, diagnostics, -, -, ok⟩ := get?_drafts_iff.1 found
  exact ⟨config, schema, registry, _, diagnostics, ok⟩

/-- Of the user with three enums the one whose type was taken by another gets the number two. -/
theorem leastNumbered_tieredUser :
    AreGenerated (drafts {} tieredUser).1 ∧
      ∃ number, LeastNumbered {} (drafts {} tieredUser).1 (finals {} tieredUser) number ∧
        number "User" ⟨"userTier2Options", some "UserTier2", ["e", "f"]⟩ = 2 := by
  have generated := areGenerated_drafts {} tieredUser
  obtain ⟨number, numbered⟩ := enums_get_least_numbers {} _ (drafts {} tieredUser).2 generated
  have drafted : ((drafts {} tieredUser).1.get? "User").map (·.enums) =
      some [⟨"userTierOptions", some "UserTier", ["a", "b"]⟩,
        ⟨"userTierOptions2", some "UserTier2", ["c", "d"]⟩,
        ⟨"userTier2Options", some "UserTier2", ["e", "f"]⟩] := by
    unfold drafts
    rw [closures_tieredUser]
    decide +kernel
  have final : ((finals {} tieredUser).get? "User").map (fun m => m.enums.map (·.constant)) =
      some ["userTierOptions", "userTierOptions2", "userTier2Options2"] := by
    unfold finals drafts
    rw [closures_tieredUser]
    decide +kernel
  refine ⟨generated, number, numbered, ?_⟩
  have renamed := congrArg (Option.map fun names => names.2.2) (numbered.renamed "User")
  rw [Option.map_map, Option.map_map] at renamed
  have same := final.symm.trans renamed
  obtain ⟨draft, found, enums⟩ := Option.map_eq_some_iff.1 drafted
  rw [found, Option.map_some, Function.comp_apply, enums] at same
  have two : Model.numbered "userTier2Options" 2 = "userTier2Options2" := by decide +kernel
  have third : "userTier2Options2" = Model.numbered "userTier2Options"
      (number "User" ⟨"userTier2Options", some "UserTier2", ["e", "f"]⟩) := by
    simpa using congrArg (fun names => (names.getD []).getD 2 "") same
  exact (Model.numbered_injective "userTier2Options" (two.trans third)).symm

end ZodModules.Generation
