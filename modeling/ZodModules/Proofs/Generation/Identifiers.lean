import ZodModules.Proofs.Generation.Uniqueness
import ZodModules.Proofs.Naming.Identifiers

/-!
# Exported identifiers

Whatever schemas and properties are called, the modules of a run export identifiers, except for the
types of enums: such a type is one only if what it is named after begins with a letter. New names
change nothing of this, since they differ from the old ones by a number at the end.
-/

namespace ZodModules

/-- Every name that the modules export is an identifier. -/
def Output.ExportsIdentifiers (config : Config) (output : Output) : Prop :=
  ∀ name ∈ output.valueNames config ++ output.typeNames config, Naming.isIdentifier name

namespace Generation

open Mapping Model SymbolTable

variable {config : Config} {registry : Registry} {usage : Usage}

/-- The enums of properties are named after a schema and a property whose first letter or digit is a
letter. -/
def EnumsBeginWithLetter (config : Config) (registry : Registry) : Prop :=
  ∀ name draft, (drafts config registry).1.get? name = some draft →
    ∀ values hint number,
      (enumOf (scopeOf config name registry (ClosureIndex.ofRegistry registry)) values hint).numbered
        number ∈ draft.enums →
      hint ≠ "" → Naming.beginsWithLetter (Naming.joined name hint)

/-- What a name comes to in a schema is the name with a number. -/
theorem exists_numbered (config : Config) (registry : Registry) (name word : String) :
    ∃ number, ((newNames config registry name).get? word).getD word =
      Model.numbered word number := by
  cases found : (newNames config registry name).get? word with
  | none => exact ⟨1, rfl⟩
  | some new =>
    rw [get?_newNames] at found
    rcases exists_of_newName? found with ⟨a, -, -, -, -, rfl⟩ | impossible
    · exact ⟨a.number, rfl⟩
    · cases impossible

theorem isIdentifier_renamed_iff {name word : String} :
    Naming.isIdentifier (((newNames config registry name).get? word).getD word) ↔
      Naming.isIdentifier word := by
  obtain ⟨number, same⟩ := exists_numbered config registry name word
  rw [same]
  exact Naming.isIdentifier_numbered_iff

theorem isIdentifier_of_mem_classNames {model : Model} {symbol : String}
    (member : symbol ∈ model.classNames config) : Naming.isIdentifier symbol := by
  unfold classNames at member
  split at member
  · rw [List.mem_singleton.1 member]
    exact Naming.isIdentifier_dtoName model.name
  · exact absurd member List.not_mem_nil

section Model

variable {name : String} {draft : Model}
  (found : (drafts config registry).1.get? name = some draft)

include found

theorem isIdentifier_enumConstant {declaration : EnumDeclaration} (member : declaration ∈ draft.enums) :
    Naming.isIdentifier declaration.constant := by
  obtain ⟨values, hint, number, rfl⟩ := (collected_draft found).named declaration member
  exact Naming.isIdentifier_numbered_iff.2 (Naming.isIdentifier_enumConstantName name hint)

/-- The values that a model exports are identifiers. -/
theorem isIdentifier_of_mem_valueNames
    (plain : ∀ c ∈ config.validatorSuffix.toList, Naming.isIdentifierChar c) {symbol : String}
    (member : symbol ∈ (draft.rename (newNames config registry name)).valueNames config) :
    Naming.isIdentifier symbol := by
  rw [← NameSpace.names_values, names_rename] at member
  rcases List.mem_append.1 member with member | isClass
  · rcases List.mem_cons.1 member with rfl | of_enum
    · show Naming.isIdentifier draft.validatorName
      rw [validatorName_draft found]
      exact Naming.isIdentifier_validatorName name plain
    · rw [List.filterMap_map] at of_enum
      obtain ⟨declaration, inside, has⟩ := List.mem_filterMap.1 of_enum
      cases has
      exact isIdentifier_renamed_iff.2 (isIdentifier_enumConstant found inside)
  · exact isIdentifier_of_mem_classNames isClass

/-- The types that a model exports are identifiers exactly if those of its enums were before they
were renamed. -/
theorem isIdentifier_typeNames_iff :
    (∀ symbol ∈ (draft.rename (newNames config registry name)).typeNames config,
        Naming.isIdentifier symbol) ↔
      ∀ declaration ∈ draft.enums, ∀ type, declaration.type = some type →
        Naming.isIdentifier type := by
  rw [← NameSpace.names_types, names_rename]
  constructor
  · intro all declaration inside type has
    have renamed : (declaration.rename (newNames config registry name)).type =
        some (((newNames config registry name).get? type).getD type) :=
      congrArg (Option.map _) has
    have exported := List.mem_filterMap.2 ⟨_, List.mem_map_of_mem inside, renamed⟩
    exact isIdentifier_renamed_iff.1
      (all _ (List.mem_append_left _ (List.mem_cons_of_mem _ exported)))
  · intro enums symbol member
    rcases List.mem_append.1 member with member | isClass
    · rcases List.mem_cons.1 member with rfl | of_enum
      · show Naming.isIdentifier draft.typeName
        rw [typeName_draft found]
        exact Naming.isIdentifier_typeName name
      · rw [List.filterMap_map] at of_enum
        obtain ⟨declaration, inside, has⟩ := List.mem_filterMap.1 of_enum
        obtain ⟨type, first, rfl⟩ := Option.map_eq_some_iff.1 has
        exact isIdentifier_renamed_iff.2 (enums declaration inside type first)
    · exact isIdentifier_of_mem_classNames isClass

/-- The types of a model's enums are identifiers exactly if what they are named after begins with a
letter. -/
theorem isIdentifier_types_iff :
    (∀ declaration ∈ draft.enums, ∀ type, declaration.type = some type →
        Naming.isIdentifier type) ↔
      ∀ values hint number,
        (enumOf (scopeOf config name registry (ClosureIndex.ofRegistry registry)) values
          hint).numbered number ∈ draft.enums →
        hint ≠ "" → Naming.beginsWithLetter (Naming.joined name hint) := by
  constructor
  · intro identifiers values hint number member named
    have has : ((enumOf (scopeOf config name registry (ClosureIndex.ofRegistry registry)) values
        hint).numbered number).type =
          some (Model.numbered (Naming.enumTypeName name hint) number) := by
      rw [EnumDeclaration.type_numbered, enumOf, if_neg (by simpa using named)]
      rfl
    have identifier := identifiers _ member _ has
    rw [Naming.isIdentifier_numbered_iff] at identifier
    exact (Naming.isIdentifier_enumTypeName_iff name hint).1 identifier
  · intro letters declaration member type has
    obtain ⟨values, hint, number, rfl⟩ := (collected_draft found).named declaration member
    by_cases named : hint = ""
    · rw [EnumDeclaration.type_numbered, enumOf, named] at has
      cases has
    · rw [EnumDeclaration.type_numbered, enumOf, if_neg (by simpa using named)] at has
      cases has
      rw [Naming.isIdentifier_numbered_iff]
      exact (Naming.isIdentifier_enumTypeName_iff name hint).2
        (letters values hint number member named)

end Model

/-- The values that the modules export are identifiers. -/
theorem isIdentifier_of_mem_valueNames_run
    (plain : ∀ c ∈ config.validatorSuffix.toList, Naming.isIdentifierChar c) {symbol : String}
    (member : symbol ∈ (run config registry usage).valueNames config) :
    Naming.isIdentifier symbol := by
  obtain ⟨model, declared, inside⟩ := List.mem_flatMap.1 member
  obtain ⟨draft, found, same⟩ := get?_finals_iff.1 (mem_models_run_iff.1 declared)
  rw [← same] at inside
  exact isIdentifier_of_mem_valueNames found plain inside

/-- The types that the modules export are identifiers exactly if those of all enums are. -/
theorem isIdentifier_typeNames_run_iff :
    (∀ symbol ∈ (run config registry usage).typeNames config, Naming.isIdentifier symbol) ↔
      ∀ name draft, (drafts config registry).1.get? name = some draft →
        ∀ declaration ∈ draft.enums, ∀ type, declaration.type = some type →
          Naming.isIdentifier type := by
  constructor
  · intro all name draft found
    refine (isIdentifier_typeNames_iff found).1 fun symbol member => ?_
    exact all symbol (List.mem_flatMap.2 ⟨_, mem_models_of_draft found, member⟩)
  · intro enums symbol member
    obtain ⟨model, declared, inside⟩ := List.mem_flatMap.1 member
    obtain ⟨draft, found, same⟩ := get?_finals_iff.1 (mem_models_run_iff.1 declared)
    rw [← same] at inside
    exact (isIdentifier_typeNames_iff found).2 (enums _ _ found) symbol inside

/-- With a suffix of letters that identifiers have, a run exports identifiers exactly if each enum of
a property is named after what begins with a letter. -/
theorem exportsIdentifiers_run_iff (config : Config) (registry : Registry) (usage : Usage)
    (plain : ∀ c ∈ config.validatorSuffix.toList, Naming.isIdentifierChar c) :
    (run config registry usage).ExportsIdentifiers config ↔
      EnumsBeginWithLetter config registry := by
  unfold Output.ExportsIdentifiers
  rw [List.forall_mem_append, isIdentifier_typeNames_run_iff]
  constructor
  · rintro ⟨-, types⟩ name draft found
    exact (isIdentifier_types_iff found).1 (types name draft found)
  · intro letters
    refine ⟨fun symbol member => isIdentifier_of_mem_valueNames_run plain member, ?_⟩
    intro name draft found
    exact (isIdentifier_types_iff found).2 (letters name draft found)

/-- A schema whose name begins with a digit, with a property that is an enum. -/
def secondFactor : Registry :=
  .ofList [("2fa", .ofKind (.object
    [⟨"mode", .ofKind (.string { literals := ["sms", "app"] })⟩] ∅))]

theorem exportsIdentifiers_secondFactor_iff :
    (∀ c ∈ ({} : Config).validatorSuffix.toList, Naming.isIdentifierChar c) ∧
      ((run {} secondFactor ∅).ExportsIdentifiers {} ↔ EnumsBeginWithLetter {} secondFactor) :=
  have plain : ∀ c ∈ ({} : Config).validatorSuffix.toList, Naming.isIdentifierChar c :=
    List.all_eq_true.1 (by decide)
  ⟨plain, exportsIdentifiers_run_iff {} secondFactor ∅ plain⟩

theorem closures_secondFactor :
    ClosureIndex.ofRegistry secondFactor = ⟨NameMap.ofList [("2fa", .ok ∅)]⟩ := by
  have closure : secondFactor.closure "2fa" = .ok ∅ := Registry.closure_of_refs_eq_nil rfl rfl
  show (⟨⟨[("2fa", secondFactor.closure "2fa")], _⟩⟩ : ClosureIndex) = _
  simp only [closure]
  rfl

/-- The type `2FaMode` of an enum is exported, which is no identifier. -/
theorem not_exportsIdentifiers_secondFactor :
    ¬ (run {} secondFactor ∅).ExportsIdentifiers {} := by
  have digit : ((drafts {} secondFactor).1.get? "2fa").any fun draft =>
      draft.enums.any fun declaration =>
        declaration.type.any fun type => !Naming.isIdentifier type := by
    unfold drafts
    rw [closures_secondFactor]
    decide +kernel
  intro identifiers
  have types := isIdentifier_typeNames_run_iff.1 fun symbol member =>
    identifiers symbol (List.mem_append_right _ member)
  obtain ⟨draft, found, enums⟩ := (Option.any_eq_true _ _).1 digit
  obtain ⟨declaration, member, has⟩ := List.any_eq_true.1 enums
  obtain ⟨type, named, bad⟩ := (Option.any_eq_true _ _).1 has
  rw [types "2fa" draft found declaration member type named] at bad
  cases bad

end Generation

end ZodModules
