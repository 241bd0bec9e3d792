import ZodModules.Proofs.Expr.Templates
import ZodModules.Proofs.Expr.TypeTexts
import ZodModules.Proofs.Generation.EnumNames
import ZodModules.Proofs.Generation.ObjectTypes

/-!
# Renderings of objects

The validator and the spelled-out type of an object are texts of their own beside those of its
properties, and enums are renamed in each text by itself. When the texts still agree afterwards.
-/

namespace ZodModules.Generation

open Mapping Model SymbolTable

variable {config : Config} {registry : Registry} {name : String}

section NewNames

/-- A name with a new name is that of an enum. -/
theorem exists_enum_of_newName {word new : String}
    (found : (newNames config registry name).get? word = some new) :
    ∃ draft declaration number, (drafts config registry).1.get? name = some draft ∧
      declaration ∈ draft.enums ∧
      (declaration.constant = word ∨ declaration.type = some word) ∧ number ≠ 1 ∧
      new = Model.numbered word number := by
  rw [get?_newNames] at found
  rcases exists_of_newName? found with ⟨a, member, rfl, bears, several, rfl⟩ | impossible
  · obtain ⟨draft, drafted, inside⟩ := mem_enums_of_mem_allocationsOf member
    exact ⟨draft, a.declaration, a.number, drafted, inside, bears, several, rfl⟩
  · cases impossible

theorem lengthens_newNames : Code.Lengthens (newNames config registry name).get? := by
  intro word new found
  obtain ⟨draft, declaration, number, -, -, -, several, rfl⟩ := exists_enum_of_newName found
  obtain ⟨digits, letters, all, nonempty⟩ := Model.exists_digits word number
  obtain ⟨c, rest, rfl⟩ := List.exists_cons_of_ne_nil (nonempty several)
  have digit := all c List.mem_cons_self
  exact ⟨c, rest, letters, Naming.isWordChar_of_isAlphanum (isAlphanum_of_isDigit digit)⟩

/-- The words that the generated text is made of have no new names. -/
theorem newName_eq_none {word : String} {c : Char} {rest : List Char}
    (letters : word.toList = c :: rest) (lower : c.isLower) (other : 'O' ∉ word.toList) :
    (newNames config registry name).get? word = none := by
  cases found : (newNames config registry name).get? word with
  | none => rfl
  | some new =>
    obtain ⟨draft, declaration, number, drafted, member, bears, -⟩ := exists_enum_of_newName found
    have collected := collected_draft drafted
    rcases bears with rfl | has
    · exact absurd (collected.mem_constant member) other
    · have start := collected.type_start member has letters
      rw [isUpper_iff, isDigit_iff] at start
      rw [isLower_iff] at lower
      omega

end NewNames

/-- An object schema, the expressions that are generated for its properties, and its model in a
run. -/
structure ObjectModel (config : Config) (registry : Registry) (name : String)
    (metadata : Schema.Metadata) (fields : List (String × Validator)) (model : Model) : Prop where
  final : (finals config registry).get? name = some model
  generated : ∃ properties required root state,
    registry.get? name = some ⟨.object properties required, metadata⟩ ∧
      Yields (generateRoot (scopeOf config name registry (ClosureIndex.ofRegistry registry))
        config.indent.text ⟨.object properties required, metadata⟩) ∅ root state ∧
      root.validator = .object fields

/-- What is chained to the validator of an object. -/
def modifiers (metadata : Schema.Metadata) : String :=
  (match metadata.description with
    | none => ""
    | some description => ".describe(" ++ quote description ++ ")") ++
    if metadata.nullable then ".nullable()" else ""

/-- What is meant to hold of the model of an object: its validator and its type, if that is spelled
out, are the texts of its properties put together, and these are the texts of their expressions with
just the constants of enums renamed. -/
structure RenderingsAgree (config : Config) (registry : Registry) (name : String)
    (metadata : Schema.Metadata) (fields : List (String × Validator)) (model : Model) : Prop where
  validator : model.validator =
    Validator.objectText config.indent.text (model.properties.map fun p => (p.name, p.validator)) ++
      modifiers metadata
  type : ∀ text, model.typing = .explicit text →
    text = Model.nullableType (objectType config.indent.text model.properties) metadata.nullable
  properties : model.properties.map (fun p => (p.name, p.validator)) =
    fields.map fun field => (field.1,
      (field.2.renameEnums (Code.newName (newNames config registry name).get?)).text
        config.indent.text)

/-- How the texts of an object are read for this to hold: outside of what is read as string literals
just the constants of enums have new names, all of which are read there; and no key of a spelled-out
type has one unless it is quoted. -/
structure RenamesRead (config : Config) (registry : Registry) (name : String)
    (metadata : Schema.Metadata) (fields : List (String × Validator)) (model : Model) : Prop where
  validator : Code.Reads (newNames config registry name).get? .nothing
    ((((Validator.object fields).describe? metadata.description).orNull metadata.nullable).template
      config.indent.text)
  type : model.isExplicit → ∀ field ∈ fields,
    Naming.isIdentifier field.1 → (newNames config registry name).get? field.1 = none
  properties : ∀ field ∈ fields, Code.Reads (newNames config registry name).get? .nothing
    (field.2.template config.indent.text)

section Texts

variable {indent : String} {metadata : Schema.Metadata} {fields : List (String × Validator)}

theorem textFields_eq_map (fields : List (String × Validator)) :
    Validator.textFields indent fields = fields.map fun field => (field.1, field.2.text indent) := by
  induction fields with
  | nil => rfl
  | cons field rest ih =>
    show (field.1, field.2.text indent) :: Validator.textFields indent rest = _
    rw [ih, List.map_cons]

theorem renameFields_eq_map (named : String → String) (fields : List (String × Validator)) :
    Validator.renameFields named fields =
      fields.map fun field => (field.1, field.2.renameEnums named) := by
  induction fields with
  | nil => rfl
  | cons field rest ih =>
    show (field.1, field.2.renameEnums named) :: Validator.renameFields named rest = _
    rw [ih, List.map_cons]

theorem renameEnums_modified (named : String → String) (validator : Validator)
    (description : Option String) (nullable : Bool) :
    ((validator.describe? description).orNull nullable).renameEnums named =
      ((validator.renameEnums named).describe? description).orNull nullable := by
  cases description <;> cases nullable <;> rfl

/-- The text of an object with what is chained to it. -/
theorem text_modified (fields : List (String × Validator)) :
    (((Validator.object fields).describe? metadata.description).orNull metadata.nullable).text
        indent =
      Validator.objectText indent (fields.map fun field => (field.1, field.2.text indent)) ++
        modifiers metadata := by
  rw [← textFields_eq_map]
  unfold modifiers
  cases metadata.description with
  | none =>
    cases metadata.nullable with
    | false =>
      show Validator.objectText indent _ = Validator.objectText indent _ ++ ("" ++ "")
      simp
    | true =>
      show Validator.objectText indent _ ++ ".nullable()" =
        Validator.objectText indent _ ++ ("" ++ ".nullable()")
      simp
  | some description =>
    cases metadata.nullable with
    | false =>
      show Validator.objectText indent _ ++ ".describe(" ++ quote description ++ ")" =
        Validator.objectText indent _ ++ (".describe(" ++ quote description ++ ")" ++ "")
      simp only [String.append_assoc, String.append_empty]
    | true =>
      show Validator.objectText indent _ ++ ".describe(" ++ quote description ++ ")" ++
          ".nullable()" =
        Validator.objectText indent _ ++ (".describe(" ++ quote description ++ ")" ++ ".nullable()")
      simp only [String.append_assoc]

end Texts

section Model

variable {metadata : Schema.Metadata} {fields : List (String × Validator)} {model : Model}

/-- The model of an object before enums are renamed. -/
structure ObjectDraft (config : Config) (metadata : Schema.Metadata)
    (fields : List (String × Validator)) (draft : Model) : Prop where
  validator : draft.validator =
    (((Validator.object fields).describe? metadata.description).orNull metadata.nullable).text
      config.indent.text
  properties : draft.properties.map (fun p => (p.name, p.validator)) =
    fields.map fun field => (field.1, field.2.text config.indent.text)
  typing : draft.typing = .inferred ∨ draft.typing =
    .explicit (nullableType (objectType config.indent.text draft.properties) metadata.nullable)
  identifiers : ∀ field ∈ fields, ∀ constant,
    .enum constant ∈ field.2.template config.indent.text → Code.IsIdentifier constant.toList
  neat : ∀ property ∈ draft.properties, Code.IsNeat property.type.toList

theorem declares_threads {scope : Scope} {properties : List (Schema.Property Schema)}
    {before after : State} {values : List Mapped}
    (threads : Threads scope properties before values after) :
    ∀ value ∈ values, Declares after value.validator := by
  induction threads with
  | nil => exact fun value member => absurd member List.not_mem_nil
  | cons first others ih =>
    rw [List.forall_mem_cons]
    exact ⟨(declares_mapValue first).mono (extends_threads others).ahead, ih⟩

theorem mem_template_propertyValidator {value : Mapped} {metadata : Schema.Metadata}
    {isRequired : Bool} {indent constant : String} :
    .enum constant ∈ (propertyValidator value metadata isRequired).template indent ↔
      .enum constant ∈ value.validator.template indent := by
  unfold propertyValidator
  rw [Validator.mem_template_orNull, Validator.mem_template_describe?]
  cases metadata.default? with
  | none =>
    cases isRequired with
    | false => exact Code.mem_before
    | true => exact Iff.rfl
  | some default =>
    cases isRequired with
    | false => exact Code.mem_before.trans Code.mem_before
    | true => exact Code.mem_before

theorem isIdentifier_constant {scope : Scope} {enums : List EnumDeclaration}
    (collected : Collected scope enums) {known : EnumDeclaration} (member : known ∈ enums) :
    Code.IsIdentifier known.constant.toList := by
  obtain ⟨c, rest, letters, start⟩ := collected.constant_start member
  refine ⟨⟨c, rest, letters, ?_⟩, collected.isWordChar_constant member⟩
  rcases start with lower | rfl
  · rw [isLower_iff] at lower
    rw [isDigit_iff]
    omega
  · decide

theorem exists_draft_of_objectModel (object : ObjectModel config registry name metadata fields model) :
    ∃ draft, model = draft.rename (newNames config registry name) ∧
      ObjectDraft config metadata fields draft := by
  obtain ⟨draft, drafted, rfl⟩ := get?_finals_iff.1 object.final
  obtain ⟨properties, required, root, state, registered, run, validator⟩ := object.generated
  have collected := collected_draft drafted
  obtain ⟨schema, diagnostics, registered', -, ok⟩ := get?_drafts_iff.1 drafted
  rw [registered] at registered'
  cases registered'
  rw [generate_of_yields run] at ok
  cases ok
  obtain ⟨values, threads, rfl⟩ := yields_objectRoot.1 run
  cases validator
  refine ⟨_, rfl, rfl, ?_, ?_, ?_, ?_⟩
  · show (List.map Prod.snd _).map _ = (List.map _ _).map _
    rw [List.map_map, List.map_map]
    refine List.map_congr_left fun field member => ?_
    obtain ⟨property, -, value, -, rfl⟩ := exists_of_mem_fields member
    rfl
  · unfold modelOf
    dsimp only
    split
    · exact Or.inr rfl
    · exact Or.inl rfl
  · intro field member constant uses
    obtain ⟨pair, inside, rfl⟩ := List.mem_map.1 member
    obtain ⟨property, -, value, present, rfl⟩ := exists_of_mem_fields inside
    have own := (mem_template_propertyValidator).1 uses
    obtain ⟨known, declared, rfl⟩ := declares_threads threads value present _ constant own
    exact isIdentifier_constant collected declared
  · intro decision member
    obtain ⟨pair, inside, rfl⟩ := List.mem_map.1 member
    obtain ⟨property, -, value, first, last, run, rfl⟩ :=
      threads.exists_yields_of_mem_fields inside
    exact isNeat_type_mapValue run

variable {draft : Model}

theorem renderings_validator_iff (drafted : ObjectDraft config metadata fields draft)
    (properties : (draft.properties.map (Property.rename (newNames config registry name))).map
        (fun p => (p.name, p.validator)) =
      fields.map fun field => (field.1,
        (field.2.renameEnums (Code.newName (newNames config registry name).get?)).text
          config.indent.text)) :
    Code.rename (newNames config registry name).get? draft.validator =
        Validator.objectText config.indent.text
          ((draft.properties.map (Property.rename (newNames config registry name))).map
            fun p => (p.name, p.validator)) ++ modifiers metadata ↔
      Code.Reads (newNames config registry name).get? .nothing
        ((((Validator.object fields).describe? metadata.description).orNull
          metadata.nullable).template config.indent.text) := by
  have identifiers : ∀ constant,
      .enum constant ∈ (((Validator.object fields).describe? metadata.description).orNull
        metadata.nullable).template config.indent.text → Code.IsIdentifier constant.toList := by
    intro constant uses
    rw [Validator.mem_template_orNull, Validator.mem_template_describe?,
      Validator.mem_objectTemplate] at uses
    obtain ⟨field, member, inside⟩ := uses
    exact drafted.identifiers field member constant inside
  have parts : fields.map (fun field => (field.1,
        (field.2.renameEnums (Code.newName (newNames config registry name).get?)).text
          config.indent.text)) =
      (Validator.renameFields (Code.newName (newNames config registry name).get?) fields).map
        fun field => (field.1, field.2.text config.indent.text) := by
    rw [renameFields_eq_map, List.map_map]
    rfl
  rw [← Validator.rename_text_iff lengthens_newNames identifiers, drafted.validator, properties,
    parts, ← text_modified, renameEnums_modified]
  rfl

theorem renderings_properties_iff (drafted : ObjectDraft config metadata fields draft) :
    ((draft.properties.map (Property.rename (newNames config registry name))).map
        (fun p => (p.name, p.validator)) =
      fields.map fun field => (field.1,
        (field.2.renameEnums (Code.newName (newNames config registry name).get?)).text
          config.indent.text)) ↔
      ∀ field ∈ fields, Code.Reads (newNames config registry name).get? .nothing
        (field.2.template config.indent.text) := by
  have renamed : (draft.properties.map (Property.rename (newNames config registry name))).map
        (fun p => (p.name, p.validator)) =
      fields.map fun field => (field.1,
        Code.rename (newNames config registry name).get? (field.2.text config.indent.text)) := by
    have texts := congrArg (List.map fun pair : String × String =>
      (pair.1, Code.rename (newNames config registry name).get? pair.2)) drafted.properties
    rw [List.map_map, List.map_map] at texts
    rw [List.map_map]
    exact texts
  rw [renamed, List.map_inj_left]
  constructor
  · intro same field member
    have text := congrArg Prod.snd (same field member)
    exact (Validator.rename_text_iff lengthens_newNames (drafted.identifiers field member)).1 text
  · intro reads field member
    exact congrArg (Prod.mk field.1) ((Validator.rename_text_iff lengthens_newNames
      (drafted.identifiers field member)).2 (reads field member))

theorem renderings_type_iff (drafted : ObjectDraft config metadata fields draft) :
    (∀ text, draft.typing.rename (newNames config registry name) = .explicit text →
        text = nullableType (objectType config.indent.text
          (draft.properties.map (Property.rename (newNames config registry name))))
            metadata.nullable) ↔
      (draft.isExplicit → ∀ field ∈ fields, Naming.isIdentifier field.1 →
        (newNames config registry name).get? field.1 = none) := by
  have null : (newNames config registry name).get? "null" = none :=
    newName_eq_none (rfl : "null".toList = 'n' :: "ull".toList) (by decide) (by decide)
  have keys : (∀ property ∈ draft.properties, Naming.isIdentifier property.name →
        (newNames config registry name).get? property.name = none) ↔
      ∀ field ∈ fields, Naming.isIdentifier field.1 →
        (newNames config registry name).get? field.1 = none := by
    have names : draft.properties.map (·.name) = fields.map Prod.fst := by
      have pairs := congrArg (List.map Prod.fst) drafted.properties
      rw [List.map_map, List.map_map] at pairs
      exact pairs
    let kept (key : String) : Prop :=
      Naming.isIdentifier key → (newNames config registry name).get? key = none
    have of_properties : (∀ key ∈ draft.properties.map (·.name), kept key) ↔
      ∀ property ∈ draft.properties, kept property.name := List.forall_mem_map
    have of_fields : (∀ key ∈ fields.map Prod.fst, kept key) ↔
      ∀ field ∈ fields, kept field.1 := List.forall_mem_map
    exact of_properties.symm.trans (names ▸ of_fields)
  rw [← keys, ← rename_objectType_iff drafted.neat config.indent lengthens_newNames null
    metadata.nullable]
  rcases drafted.typing with inferred | explicit
  · unfold isExplicit
    rw [inferred]
    simp [Typing.rename]
  · unfold isExplicit
    rw [explicit]
    simp [Typing.rename]

/-- The renderings of an object agree exactly if its texts are read that way. -/
theorem renderingsAgree_iff_of_object
    (object : ObjectModel config registry name metadata fields model) :
    RenderingsAgree config registry name metadata fields model ↔
      RenamesRead config registry name metadata fields model := by
  obtain ⟨draft, rfl, drafted⟩ := exists_draft_of_objectModel object
  constructor
  · intro agree
    have properties := agree.properties
    exact ⟨(renderings_validator_iff drafted properties).1 agree.validator,
      fun explicit => (renderings_type_iff drafted).1 agree.type
        (isExplicit_rename draft ▸ explicit),
      (renderings_properties_iff drafted).1 properties⟩
  · intro reads
    have properties := (renderings_properties_iff drafted).2 reads.properties
    exact ⟨(renderings_validator_iff drafted properties).2 reads.validator,
      (renderings_type_iff drafted).2 fun explicit =>
        reads.type ((isExplicit_rename draft).symm ▸ explicit),
      properties⟩

end Model

/-- Whether the renderings of a schema's model agree after enums are renamed, if it is an object. -/
def KeepsRenderings (config : Config) (registry : Registry) (name : String) : Prop :=
  ∀ metadata fields model, ObjectModel config registry name metadata fields model →
    RenderingsAgree config registry name metadata fields model

/-- Whether the texts of a schema's model are read as they are meant, if it is an object. -/
def ReadsRenames (config : Config) (registry : Registry) (name : String) : Prop :=
  ∀ metadata fields model, ObjectModel config registry name metadata fields model →
    RenamesRead config registry name metadata fields model

/-- Renaming enums keeps the renderings of an object in agreement exactly if their texts are read as
they are meant. -/
theorem keepsRenderings_iff (config : Config) (registry : Registry) (name : String) :
    KeepsRenderings config registry name ↔ ReadsRenames config registry name := by
  constructor
  · intro keeps metadata fields model object
    exact (renderingsAgree_iff_of_object object).1 (keeps metadata fields model object)
  · intro reads metadata fields model object
    exact (renderingsAgree_iff_of_object object).2 (reads metadata fields model object)

theorem exists_objectModel {properties : List (Schema.Property Schema)} {required : NameSet}
    {metadata : Schema.Metadata} {model : Model}
    (registered : registry.get? name = some ⟨.object properties required, metadata⟩)
    (found : (finals config registry).get? name = some model) :
    ∃ fields, ObjectModel config registry name metadata fields model := by
  obtain ⟨draft, drafted, -⟩ := get?_finals_iff.1 found
  obtain ⟨schema, root, state, registered', -, run, -⟩ := exists_yields_of_draft drafted
  rw [registered] at registered'
  cases registered'
  obtain ⟨values, -, rfl⟩ := yields_objectRoot.1 run
  exact ⟨_, found, properties, required, _, state, registered, run, rfl⟩

/-- Two users with an enum of one name, of which one has a property that is named like its
constant. -/
def namesake : Registry :=
  let literals (values : List String) : Schema := .ofKind (.string { literals := values })
  .ofList [("user", .ofKind (.object [⟨"x status", literals ["c", "d"]⟩] ∅)),
    ("user x", .ofKind (.object
      [⟨"status", literals ["a", "b"]⟩, ⟨"userXStatusOptions", .ofKind .boolean⟩] ∅))]

theorem closures_namesake :
    ClosureIndex.ofRegistry namesake =
      ⟨NameMap.ofList [("user", .ok ∅), ("user x", .ok ∅)]⟩ := by
  have first : namesake.closure "user" = .ok ∅ := Registry.closure_of_refs_eq_nil rfl rfl
  have second : namesake.closure "user x" = .ok ∅ := Registry.closure_of_refs_eq_nil rfl rfl
  show (⟨⟨[("user", namesake.closure "user"), ("user x", namesake.closure "user x")], _⟩⟩ :
    ClosureIndex) = _
  simp only [first, second]
  rfl

/-- The key of the property is renamed along with the constant. -/
theorem not_keepsRenderings_namesake : ¬ KeepsRenderings {} namesake "user x" := by
  have differ : ((finals {} namesake).get? "user x").any fun model =>
      model.validator != Validator.objectText "  "
        (model.properties.map fun p => (p.name, p.validator)) ++ ("" ++ "") := by
    unfold finals drafts
    rw [closures_namesake]
    decide +kernel
  intro keeps
  cases found : (finals {} namesake).get? "user x" with
  | none =>
    rw [found] at differ
    cases differ
  | some model =>
    rw [found] at differ
    obtain ⟨fields, object⟩ := exists_objectModel rfl found
    have agree := (keeps _ _ _ object).validator
    rw [Option.any_some, bne_iff_ne] at differ
    exact differ agree

end ZodModules.Generation
