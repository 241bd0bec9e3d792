import ZodModules.Proofs.Generation.Closedness
import ZodModules.Proofs.Generation.EnumNames
import ZodModules.Proofs.Model.Claiming

/-!
# Uniqueness of exported names

When a run reports no collision, the exported names are distinct up to two kinds of clashes within
one schema: enums of one model whose types have the same first name, which are all renamed to the
same new one, and a validator that is called like the class of its schema.
-/

namespace ZodModules

namespace Output

/-- The models of all modules. -/
def models (output : Output) : List Model := output.modules.flatMap (·.models)

/-- The values that all modules together export. -/
def valueNames (output : Output) (config : Config) : List String :=
  output.models.flatMap (·.valueNames config)

/-- The types that all modules together export. -/
def typeNames (output : Output) (config : Config) : List String :=
  output.models.flatMap (·.typeNames config)

/-- Without a reported collision no name is exported twice. -/
def UniqueExports (config : Config) (output : Output) : Prop :=
  output.report.symbolCollisions = [] →
    (output.valueNames config).Nodup ∧ (output.typeNames config).Nodup

end Output

namespace Generation

open Mapping Model SymbolTable

variable {config : Config} {registry : Registry} {usage : Usage}

/-- No model has two enums whose types are named the same before names are made distinct. -/
def DistinctEnumTypes (config : Config) (registry : Registry) : Prop :=
  ∀ name draft, (drafts config registry).1.get? name = some draft →
    (draft.enums.filterMap (·.type)).Nodup

/-- The validator of some schema is called like its class. -/
def ClassClash (config : Config) (registry : Registry) : Prop :=
  config.annotations ∧ config.validatorSuffix = "Dto" ∧
    ∃ name draft, (drafts config registry).1.get? name = some draft ∧ draft.isObject

section Models

theorem mem_models_run_iff {model : Model} :
    model ∈ (run config registry usage).models ↔
      (finals config registry).get? model.name = some model := by
  unfold Output.models
  rw [List.mem_flatMap]
  constructor
  · rintro ⟨module, member, declared⟩
    exact ((mem_models_iff member).1 declared).1
  · intro found
    obtain ⟨home, member, declared, -⟩ := exists_home usage found
    exact ⟨home, member, declared⟩

theorem nodup_names_models {module : EntityModule}
    (member : module ∈ (run config registry usage).modules) :
    (module.models.map (·.name)).Nodup := by
  obtain ⟨entity, schemas, listed, rfl⟩ := mem_modules_iff.1 member
  have nodup : ((modelsOf config registry schemas).map (·.name)).Nodup :=
    nodup_names_modelsOf (EntityAssignment.nodup_entity listed)
  exact ((models_assemble_perm nodup).map _).nodup_iff.2 nodup

/-- Each schema has one model in all modules together. -/
theorem nodup_names_run (config : Config) (registry : Registry) (usage : Usage) :
    ((run config registry usage).models.map (·.name)).Nodup := by
  unfold Output.models
  rw [List.map_flatMap, List.nodup_flatMap]
  refine ⟨fun module member => nodup_names_models member, ?_⟩
  have modules : ((run config registry usage).modules.map (·.name)).Nodup := by
    show ((EntityAssignment.ofUsage registry usage config.sharedEntity).entities.entries.map
      fun entry => assemble config (generator config) _ entry.1 _).map (·.name) |>.Nodup
    rw [List.map_map]
    exact NameMap.nodup_keys _
  refine (List.Nodup.of_map _ modules).pairwise_of_forall_ne ?_
  intro first of_first second of_second different
  show List.Disjoint _ _
  intro name inside inside'
  obtain ⟨model, declared, rfl⟩ := List.mem_map.1 inside
  obtain ⟨other, declared', same⟩ := List.mem_map.1 inside'
  have owner := ((mem_models_iff of_first).1 declared).2
  have owner' := ((mem_models_iff of_second).1 declared').2
  rw [same, owner, Option.some.injEq] at owner'
  exact different (List.inj_on_of_nodup_map modules of_first of_second owner')

end Models

/-- Names that are distinct for each model and belong to one schema each are distinct altogether. -/
theorem nodup_flatMap_names (owns : String → String → Prop) {models : List Model}
    (distinct : (models.map (·.name)).Nodup)
    {names : Model → List String} (each : ∀ model ∈ models, (names model).Nodup)
    (owned : ∀ model ∈ models, ∀ name ∈ names model, owns model.name name)
    (single : ∀ name first second, owns first name → owns second name → first = second) :
    (models.flatMap names).Nodup := by
  rw [List.nodup_flatMap]
  refine ⟨each, (List.Nodup.of_map _ distinct).pairwise_of_forall_ne ?_⟩
  intro first of_first second of_second different
  show List.Disjoint _ _
  intro name inside inside'
  have same := single name _ _ (owned first of_first name inside)
    (owned second of_second name inside')
  exact different (List.inj_on_of_nodup_map distinct of_first of_second same)

/-- The names taken before enums choose theirs. -/
def claimTable (config : Config) (registry : Registry) : SymbolTable :=
  (claimed config (drafts config registry).1 (drafts config registry).2).1

/-- A name in a space is that of a schema itself or allocated to one of its enums. -/
def Owns (space : NameSpace) (config : Config) (registry : Registry) (schema name : String) : Prop :=
  (space.taken (claimTable config registry)).get? name = some schema ∨
    ∃ a ∈ enumAllocations config registry, a.schema = schema ∧ a.name? space = some name

theorem not_claimed {a : Allocation} (member : a ∈ enumAllocations config registry)
    {space : NameSpace} {name : String} (has : a.name? space = some name) :
    (space.taken (claimTable config registry)).get? name = none :=
  (fresh_names space _ _).2 a member name has

/-- The enum that was allocated a name. -/
theorem allocation_eq_of_name? {space : NameSpace} {a b : Allocation}
    (member : a ∈ enumAllocations config registry) (member' : b ∈ enumAllocations config registry)
    {name : String} (has : a.name? space = some name) (has' : b.name? space = some name) : a = b :=
  eq_of_nodup_filterMap (fresh_names space _ _).1 member member' has has'

theorem owns_single {space : NameSpace} (name first second : String)
    (of_first : Owns space config registry first name)
    (of_second : Owns space config registry second name) : first = second := by
  rcases of_first with claimed | ⟨a, member, rfl, has⟩
  · rcases of_second with claimed' | ⟨b, member', rfl, has'⟩
    · rw [claimed, Option.some.injEq] at claimed'
      exact claimed'
    · rw [not_claimed member' has'] at claimed
      cases claimed
  · rcases of_second with claimed' | ⟨b, member', rfl, has'⟩
    · rw [not_claimed member has] at claimed'
      cases claimed'
    · exact congrArg Allocation.schema (allocation_eq_of_name? member member' has has')

section Model

variable {name : String} {draft : Model}
  (found : (drafts config registry).1.get? name = some draft)

include found

theorem name_draft : draft.name = name := by
  obtain ⟨schema, -, refers⟩ := refers_draft found
  exact refers.name

/-- The names of a model's enums in the end are the ones allocated to them. -/
theorem exists_name?_allocation {space : NameSpace}
    (distinct : (draft.enums.filterMap space.enumName?).Nodup) {declaration : EnumDeclaration}
    (member : declaration ∈ draft.enums) :
    ∃ a ∈ enumAllocations config registry, a.schema = name ∧ a.declaration = declaration ∧
      space.enumName? (declaration.rename (newNames config registry name)) = a.name? space := by
  have allocated : ∃ a ∈ enumAllocations config registry, a.schema = name ∧
      a.declaration = declaration := exists_allocation found member
  obtain ⟨a, inside, rfl, rfl⟩ := allocated
  exact ⟨a, inside, rfl, rfl, enumName?_renamed distinctEnums_draft inside found space distinct⟩

theorem nodup_enumNames {space : NameSpace}
    (distinct : (draft.enums.filterMap space.enumName?).Nodup) :
    ((draft.enums.map (EnumDeclaration.rename (newNames config registry name))).filterMap
      space.enumName?).Nodup := by
  rw [List.filterMap_map, List.Nodup, List.pairwise_filterMap]
  refine (List.Nodup.of_map _ (collected_draft found).distinct).pairwise_of_forall_ne ?_
  intro first of_first second of_second different renamed has renamed' has' same
  obtain ⟨a, inside, -, rfl, allocated⟩ := exists_name?_allocation found distinct of_first
  obtain ⟨b, inside', -, rfl, allocated'⟩ := exists_name?_allocation found distinct of_second
  rw [Function.comp_apply, allocated] at has
  rw [Function.comp_apply, allocated', ← same] at has'
  exact different (congrArg Allocation.declaration (allocation_eq_of_name? inside inside' has has'))

theorem mem_values_drafts : draft ∈ (drafts config registry).1.values :=
  List.mem_map.2 ⟨(name, draft), NameMap.mem_entries_iff.2 found, rfl⟩

theorem validatorName_draft : draft.validatorName = config.validatorName name := by
  obtain ⟨schema, -, refers⟩ := refers_draft found
  exact refers.validatorName

theorem typeName_draft : draft.typeName = Naming.typeName name := by
  obtain ⟨schema, -, refers⟩ := refers_draft found
  exact refers.typeName

/-- The validator of a schema is called like its class exactly if its suffix is that of classes. -/
theorem validatorName_mem_classNames_iff :
    draft.validatorName ∈ draft.classNames config ↔
      config.annotations ∧ config.validatorSuffix = "Dto" ∧ draft.isObject := by
  unfold classNames
  rw [validatorName_draft found, name_draft found]
  cases config.annotations with
  | false => simp
  | true =>
    cases draft.isObject with
    | false => simp
    | true =>
      simp only [Bool.and_self, if_true, List.mem_singleton, and_true, true_and]
      unfold Config.validatorName Naming.validatorName Naming.dtoName
      constructor
      · intro same
        have lists := congrArg String.toList same
        rw [String.toList_append, String.toList_append] at lists
        exact String.toList_inj.1 (List.append_cancel_left lists)
      · intro same
        rw [same]

theorem typeName_not_mem_classNames : draft.typeName ∉ draft.classNames config := by
  unfold classNames
  rw [typeName_draft found, name_draft found]
  split
  · intro same
    have lengths := congrArg String.length (List.mem_singleton.1 same)
    unfold Naming.dtoName at lengths
    rw [String.length_append] at lengths
    simp at lengths
  · simp

end Model

theorem nodup_cons_append {first : String} {middle last : List String} (middle_nodup : middle.Nodup)
    (last_nodup : last.Nodup) (fresh : first ∉ middle) (other : first ∉ last)
    (apart : ∀ name ∈ middle, name ∉ last) : (first :: middle ++ last).Nodup := by
  rw [List.cons_append, List.nodup_cons, List.mem_append, List.nodup_append]
  refine ⟨fun member => member.elim fresh other, middle_nodup, last_nodup, ?_⟩
  intro name inside other_name inside' same
  exact apart name inside (same ▸ inside')

/-- The names of a model with renamed enums. -/
theorem names_rename (space : NameSpace) (draft : Model) (renames : NameMap String) :
    space.names config (draft.rename renames) =
      space.modelName draft ::
        (draft.enums.map (EnumDeclaration.rename renames)).filterMap space.enumName? ++
          draft.classNames config := by
  cases space <;> rfl

section Silent

variable (silent : (run config registry usage).report.symbolCollisions = [])

include silent

section

variable {name : String} {draft : Model}
  (found : (drafts config registry).1.get? name = some draft)

include found

/-- What is named like a schema is claimed for it. -/
theorem claimed_name {space : NameSpace} {symbol : String}
    (member : symbol ∈ space.modelName draft :: draft.classNames config) :
    (space.taken (claimTable config registry)).get? symbol = some name := by
  have owned := owned_of_silent silent space (mem_values_drafts found) member
  rwa [name_draft found] at owned

/-- The names of a model's enums are not named like the schema. -/
theorem not_named_like_schema {space : NameSpace}
    (distinct : (draft.enums.filterMap space.enumName?).Nodup) {symbol : String}
    (of_enum : symbol ∈ (draft.enums.map
      (EnumDeclaration.rename (newNames config registry name))).filterMap space.enumName?) :
    symbol ∉ space.modelName draft :: draft.classNames config := by
  intro member
  rw [List.filterMap_map] at of_enum
  obtain ⟨declaration, inside, has⟩ := List.mem_filterMap.1 of_enum
  obtain ⟨a, allocated, -, -, same⟩ := exists_name?_allocation found distinct inside
  have claimed := claimed_name silent found member
  rw [not_claimed allocated (same.symm.trans has)] at claimed
  cases claimed

theorem owns_names {space : NameSpace}
    (distinct : (draft.enums.filterMap space.enumName?).Nodup) {symbol : String}
    (member : symbol ∈ space.names config (draft.rename (newNames config registry name))) :
    Owns space config registry name symbol := by
  rw [names_rename] at member
  rcases List.mem_append.1 member with member | isClass
  · rcases List.mem_cons.1 member with rfl | of_enum
    · exact Or.inl (claimed_name silent found List.mem_cons_self)
    · rw [List.filterMap_map] at of_enum
      obtain ⟨declaration, inside, has⟩ := List.mem_filterMap.1 of_enum
      obtain ⟨a, allocated, own, -, same⟩ := exists_name?_allocation found distinct inside
      exact Or.inr ⟨a, allocated, own, same.symm.trans has⟩
  · exact Or.inl (claimed_name silent found (List.mem_cons_of_mem _ isClass))

theorem nodup_names {space : NameSpace}
    (distinct : (draft.enums.filterMap space.enumName?).Nodup)
    (apart : space.modelName draft ∉ draft.classNames config) :
    (space.names config (draft.rename (newNames config registry name))).Nodup := by
  have unclaimed (symbol : String) (of_enum : symbol ∈ (draft.enums.map
      (EnumDeclaration.rename (newNames config registry name))).filterMap space.enumName?) :=
    not_named_like_schema silent found distinct of_enum
  rw [names_rename]
  refine nodup_cons_append (nodup_enumNames found distinct) (nodup_classNames draft config) ?_ apart
    ?_
  · intro member
    exact unclaimed _ member List.mem_cons_self
  · intro symbol member isClass
    exact unclaimed symbol member (List.mem_cons_of_mem _ isClass)

end

/-- The names that all models export in a space are distinct if those of each model are. -/
theorem nodup_names_of_silent {space : NameSpace}
    (each : ∀ name draft, (drafts config registry).1.get? name = some draft →
      (draft.enums.filterMap space.enumName?).Nodup ∧
        space.modelName draft ∉ draft.classNames config) :
    ((run config registry usage).models.flatMap (space.names config)).Nodup := by
  refine nodup_flatMap_names (Owns space config registry) (nodup_names_run config registry usage)
    ?_ ?_ owns_single
  · intro model member
    obtain ⟨draft, found, same⟩ := get?_finals_iff.1 (mem_models_run_iff.1 member)
    obtain ⟨distinct, apart⟩ := each _ _ found
    rw [← same]
    exact nodup_names silent found distinct apart
  · intro model member symbol inside
    obtain ⟨draft, found, same⟩ := get?_finals_iff.1 (mem_models_run_iff.1 member)
    rw [← same] at inside
    exact owns_names silent found (each _ _ found).1 inside

theorem nodup_valueNames_run (apart : ¬ ClassClash config registry) :
    ((run config registry usage).valueNames config).Nodup := by
  have nodup : ((run config registry usage).models.flatMap
      (NameSpace.values.names config)).Nodup := by
    refine nodup_names_of_silent silent fun name draft found => ⟨nodup_constants_draft found, ?_⟩
    intro member
    obtain ⟨annotations, suffix, object⟩ := (validatorName_mem_classNames_iff found).1 member
    exact apart ⟨annotations, suffix, name, draft, found, object⟩
  have names : NameSpace.values.names config = fun model => model.valueNames config :=
    funext fun model => NameSpace.names_values
  rw [names] at nodup
  exact nodup

theorem nodup_typeNames_run (distinct : DistinctEnumTypes config registry) :
    ((run config registry usage).typeNames config).Nodup := by
  have nodup : ((run config registry usage).models.flatMap
      (NameSpace.types.names config)).Nodup :=
    nodup_names_of_silent silent fun name draft found =>
      ⟨distinct name draft found, typeName_not_mem_classNames found⟩
  exact nodup

end Silent

section Clashes

variable {name : String} {draft : Model}
  (found : (drafts config registry).1.get? name = some draft)

include found

theorem mem_models_of_draft :
    draft.rename (newNames config registry name) ∈ (run config registry usage).models := by
  refine mem_models_run_iff.2 ?_
  rw [name_rename, name_draft found]
  exact get?_finals_iff.2 ⟨draft, found, rfl⟩

/-- A validator called like its class is one name exported twice. -/
theorem not_nodup_valueNames_of_clash (annotations : config.annotations)
    (suffix : config.validatorSuffix = "Dto") (object : draft.isObject) :
    ¬ ((run config registry usage).valueNames config).Nodup := by
  intro nodup
  have own := (List.nodup_flatMap.1 nodup).1 _ (mem_models_of_draft found)
  have same := (validatorName_mem_classNames_iff found).2 ⟨annotations, suffix, object⟩
  change (draft.validatorName ::
    (draft.enums.map (EnumDeclaration.rename (newNames config registry name))).map (·.constant) ++
      draft.classNames config).Nodup at own
  exact (List.nodup_cons.1 own).1 (List.mem_append_right _ same)

/-- Types that are named the same get the same new name. -/
theorem nodup_types_of_run (nodup : ((run config registry usage).typeNames config).Nodup) :
    (draft.enums.filterMap (·.type)).Nodup := by
  have own := (List.nodup_flatMap.1 nodup).1 _ (mem_models_of_draft found)
  change (draft.typeName ::
    (draft.enums.map (EnumDeclaration.rename (newNames config registry name))).filterMap (·.type) ++
      draft.classNames config).Nodup at own
  have types := (List.nodup_append.1 (List.nodup_cons.1 own).2).1
  have renamed : (draft.enums.map (EnumDeclaration.rename (newNames config registry name))).filterMap
      (·.type) = (draft.enums.filterMap (·.type)).map fun type =>
        ((newNames config registry name).get? type).getD type := by
    rw [List.filterMap_map, List.map_filterMap]
    rfl
  rw [renamed] at types
  exact List.Nodup.of_map _ types

end Clashes

/-- A run without a reported collision exports no name twice exactly if no model has two enums whose
types were named the same and no validator is called like the class of its schema. -/
theorem uniqueExports_run_iff (config : Config) (registry : Registry) (usage : Usage) :
    (run config registry usage).UniqueExports config ↔
      ((run config registry usage).report.symbolCollisions = [] →
        DistinctEnumTypes config registry ∧ ¬ ClassClash config registry) := by
  constructor
  · intro unique silent
    obtain ⟨values, types⟩ := unique silent
    refine ⟨fun name draft found => nodup_types_of_run found types, ?_⟩
    rintro ⟨annotations, suffix, name, draft, found, object⟩
    exact not_nodup_valueNames_of_clash found annotations suffix object values
  · intro holds silent
    obtain ⟨distinct, apart⟩ := holds silent
    exact ⟨nodup_valueNames_run silent apart, nodup_typeNames_run silent distinct⟩

/-- A user with three enums, of which two have a type with the first name `UserTier2`. -/
def tieredUser : Registry :=
  let literals (values : List String) : Schema := .ofKind (.string { literals := values })
  .ofList [("User", .ofKind (.object
    [⟨"tier", .ofKind (.oneOf [literals ["a", "b"], literals ["c", "d"]] none)⟩,
      ⟨"tier2", literals ["e", "f"]⟩] ∅))]

theorem closures_tieredUser :
    ClosureIndex.ofRegistry tieredUser = ⟨NameMap.ofList [("User", .ok ∅)]⟩ := by
  have closure : tieredUser.closure "User" = .ok ∅ := Registry.closure_of_refs_eq_nil rfl rfl
  show (⟨⟨[("User", tieredUser.closure "User")], _⟩⟩ : ClosureIndex) = _
  simp only [closure]
  rfl

/-- No collision is reported for the user with three enums, yet two types have one name. -/
theorem not_uniqueExports_tieredUser : ¬ (run {} tieredUser ∅).UniqueExports {} := by
  have silent : (run {} tieredUser ∅).report.symbolCollisions = [] := by
    show (claimed {} (drafts {} tieredUser).1 (drafts {} tieredUser).2).2.symbolCollisions = []
    unfold drafts
    rw [closures_tieredUser]
    decide +kernel
  have clash : ((drafts {} tieredUser).1.get? "User").any fun draft =>
      !decide ((draft.enums.filterMap (·.type)).Nodup) := by
    unfold drafts
    rw [closures_tieredUser]
    decide +kernel
  intro unique
  obtain ⟨-, types⟩ := unique silent
  cases found : (drafts {} tieredUser).1.get? "User" with
  | none =>
    rw [found] at clash
    cases clash
  | some draft =>
    rw [found] at clash
    simp only [Option.any_some, Bool.not_eq_true', decide_eq_false_iff_not] at clash
    exact clash (nodup_types_of_run found types)

end Generation

end ZodModules
