import ZodModules.Proofs.Generation.Renderings
import ZodModules.Proofs.Generation.TypePlaces
import ZodModules.Proofs.Generation.Uniqueness

/-!
# Types of references in a run

The types of schemas are not renamed, but the identifiers in the texts of a model are, whatever they
stand for. So a property that refers to a schema keeps its type exactly if no enum of the same model
that was first named like that type gets a new name.
-/

namespace ZodModules.Generation

open Mapping Model SymbolTable

variable {config : Config} {registry : Registry} {name : String}

/-- A type names the schema that a shape refers to in its place. -/
def NamesTarget (target : String) (shape : Shape) (type : String) : Prop :=
  ∃ list, (∀ c ∈ list.toList, Code.isWordChar c) ∧
    shape.Places list (Naming.typeName target) type

/-- What is meant to hold of the model of an object: the types of its properties name the schemas
that their shapes refer to, and so do those in the lines of its type, if that is spelled out. -/
structure TargetsNamed (config : Config) (metadata : Schema.Metadata) (model : Model) : Prop where
  types : ∀ property ∈ model.properties, ∀ target, property.shape.target? = some target →
    NamesTarget target property.shape property.type
  lines : ∀ text, model.typing = .explicit text → model.properties ≠ [] →
    ∃ (keys : Property → List Char) (types : Property → String),
      text.toList = "\x7b\n".toList ++ ("\n".toList.intercalate (model.properties.map fun property =>
        typeLine config.indent { property with type := types property } (keys property)) ++
          "\n\x7d".toList) ++ nullEnd metadata.nullable ∧
      ∀ property ∈ model.properties, ∀ target, property.shape.target? = some target →
        NamesTarget target property.shape (types property)

/-- Whether the model of a schema names what its properties refer to, if it is an object. -/
def KeepsTargets (config : Config) (registry : Registry) (name : String) : Prop :=
  ∀ metadata fields model, ObjectModel config registry name metadata fields model →
    TargetsNamed config metadata model

/-- Whether enums of a schema that were first named like the type of a schema that a property refers
to have kept that name, if it is an object. -/
def SparesTargets (config : Config) (registry : Registry) (name : String) : Prop :=
  ∀ metadata fields model, ObjectModel config registry name metadata fields model →
    ∀ property ∈ model.properties, ∀ target, property.shape.target? = some target →
      ∀ a ∈ enumAllocations config registry, a.schema = name →
        a.Bears (Naming.typeName target) → a.number = 1

theorem isIdentifier_typeName (schema : String) :
    Code.IsIdentifier (Naming.typeName schema).toList := by
  obtain ⟨c, rest, letters, start⟩ := Naming.pascalIdentifier_start schema
  refine ⟨⟨c, rest, letters, ?_⟩, fun _ => Naming.isWordChar_of_mem_typeName⟩
  rcases start with upper | rfl
  · rw [isUpper_iff] at upper
    rw [isDigit_iff]
    omega
  · decide

theorem isWordChar_array : ∀ c ∈ "Array".toList, Code.isWordChar c := by
  have letters : "Array".toList.all Code.isWordChar = true := by decide
  exact List.all_eq_true.1 letters

/-- The new name of a word is a word. -/
theorem isWordChar_newName {word : String} (letters : ∀ c ∈ word.toList, Code.isWordChar c) :
    ∀ c ∈ (Code.newName (newNames config registry name).get? word).toList, Code.isWordChar c := by
  unfold Code.newName
  cases found : (newNames config registry name).get? word with
  | none => exact letters
  | some new =>
    obtain ⟨_, _, number, -, -, -, -, rfl⟩ := exists_enum_of_newName found
    exact isWordChar_of_mem_numbered letters number

theorem newNames_eq_none_iff {word : String} :
    (newNames config registry name).get? word = none ↔
      ∀ a ∈ enumAllocations config registry, a.schema = name → a.Bears word → a.number = 1 := by
  rw [get?_newNames, newName?_foldl_note_eq_none_iff]
  exact and_iff_right rfl

/-- Before enums are renamed the types of properties name what these refer to. -/
theorem places_draft {draft : Model} (found : (drafts config registry).1.get? name = some draft)
    {property : Property} (member : property ∈ draft.properties) {target : String}
    (refers : property.shape.target? = some target) :
    property.shape.Places "Array" (Naming.typeName target) property.type := by
  obtain ⟨schema, root, state, -, -, run, rfl⟩ := exists_yields_of_draft found
  rcases generateRoot_cases run with
    ⟨properties, required, metadata, values, rfl, threads, rfl⟩ | ⟨-, mapped, -, rfl⟩
  · obtain ⟨pair, inside, rfl⟩ := List.mem_map.1 member
    obtain ⟨source, -, value, first, last, run, rfl⟩ := threads.exists_yields_of_mem_fields inside
    exact typePlaced_mapValue run target refers
  · exact absurd member List.not_mem_nil

section Model

variable {metadata : Schema.Metadata} {fields : List (String × Validator)} {model : Model}
  (object : ObjectModel config registry name metadata fields model)

include object

/-- In the end the types of properties have the new name of what these refer to in its place. -/
theorem places_final {property : Property} (member : property ∈ model.properties) {target : String}
    (refers : property.shape.target? = some target) :
    property.shape.Places (Code.newName (newNames config registry name).get? "Array")
      (Code.newName (newNames config registry name).get? (Naming.typeName target))
      property.type := by
  obtain ⟨draft, drafted, rfl⟩ := get?_finals_iff.1 object.final
  obtain ⟨decision, inside, rfl⟩ := List.mem_map.1 member
  have null : (newNames config registry name).get? "null" = none :=
    newName_eq_none (rfl : "null".toList = 'n' :: "ull".toList) (by decide) (by decide)
  have identifier : Code.IsIdentifier "Array".toList :=
    ⟨⟨'A', "rray".toList, rfl, by decide⟩, isWordChar_array⟩
  change (renameShape _ decision.shape).target? = some target at refers
  rw [Shape.target?_renameShape] at refers
  show (renameShape _ decision.shape).Places _ _ (Code.rename _ decision.type)
  rw [Shape.renameShape_of_target? refers]
  exact (places_draft drafted inside refers).rename null identifier (isIdentifier_typeName target)

/-- A property names what it refers to exactly if the type of that has no new name. -/
theorem namesTarget_iff {property : Property} (member : property ∈ model.properties)
    {target : String} (refers : property.shape.target? = some target) :
    NamesTarget target property.shape property.type ↔
      (newNames config registry name).get? (Naming.typeName target) = none := by
  have places := places_final object member refers
  have letters : ∀ c ∈ (Naming.typeName target).toList, Code.isWordChar c :=
    fun _ => Naming.isWordChar_of_mem_typeName
  rw [← lengthens_newNames.newName_eq_iff]
  constructor
  · rintro ⟨list, plain', places'⟩
    exact places.word_eq places' rfl (isWordChar_newName letters) letters
      (isWordChar_newName isWordChar_array) plain'
  · intro kept
    rw [kept] at places
    exact ⟨_, isWordChar_newName isWordChar_array, places⟩

/-- The lines of a spelled-out type show the types of the properties. -/
theorem lines_final {text : String} (explicit : model.typing = .explicit text)
    (nonempty : model.properties ≠ []) :
    ∃ keys : Property → List Char,
      text.toList = "\x7b\n".toList ++ ("\n".toList.intercalate (model.properties.map fun property =>
        typeLine config.indent property (keys property)) ++ "\n\x7d".toList) ++
          nullEnd metadata.nullable := by
  obtain ⟨draft, rfl, drafted⟩ := exists_draft_of_objectModel object
  have null : (newNames config registry name).get? "null" = none :=
    newName_eq_none (rfl : "null".toList = 'n' :: "ull".toList) (by decide) (by decide)
  rcases drafted.typing with inferred | spelled
  · change draft.typing.rename _ = _ at explicit
    rw [inferred] at explicit
    cases explicit
  · change draft.typing.rename _ = _ at explicit
    rw [spelled] at explicit
    cases explicit
    have nonempty' : draft.properties ≠ [] := fun empty => nonempty (by
      show draft.properties.map _ = []
      rw [empty, List.map_nil])
    refine ⟨fun property => Code.renameFrom (newNames config registry name).get? .nothing
      (Naming.propertyKey property.name).toList, ?_⟩
    show _ = _ ++ ("\n".toList.intercalate ((draft.properties.map _).map _) ++ _) ++ _
    rw [Code.toList_rename, toList_nullableType,
      Code.renameFrom_append_of_closed (isClosed_objectType drafted.neat), renameFrom_nullEnd null,
      renameFrom_objectType drafted.neat null nonempty', List.map_map]
    rfl

end Model

/-- The model of an object names what its properties refer to exactly if no enum has taken a new name
that was first named like the type of that. -/
theorem keepsTargets_iff (config : Config) (registry : Registry) (name : String) :
    KeepsTargets config registry name ↔ SparesTargets config registry name := by
  constructor
  · intro keeps metadata fields model object property member target refers
    apply newNames_eq_none_iff.1
    apply (namesTarget_iff object member refers).1
    exact (keeps metadata fields model object).types property member target refers
  · intro spares metadata fields model object
    have named : ∀ property ∈ model.properties, ∀ target, property.shape.target? = some target →
        NamesTarget target property.shape property.type := by
      intro property member target refers
      apply (namesTarget_iff object member refers).2
      apply newNames_eq_none_iff.2
      exact spares metadata fields model object property member target refers
    refine ⟨named, ?_⟩
    intro text explicit nonempty
    obtain ⟨keys, whole⟩ := lines_final object explicit nonempty
    exact ⟨keys, (·.type), whole, named⟩

/-- An order with an enum whose type is first named like that of a schema which the order refers to
too. -/
def trackedOrder : Registry :=
  .ofList [("Order", .ofKind (.object
      [⟨"status", .ofKind (.string { literals := ["open", "closed"] })⟩,
        ⟨"detail", .ofKind (.ref "OrderStatus")⟩] ∅)),
    ("OrderStatus", .ofKind (.object [⟨"code", .ofKind (.string {})⟩] ∅))]

theorem closures_trackedOrder :
    ClosureIndex.ofRegistry trackedOrder =
      ⟨NameMap.ofList [("Order", .ok (.ofList ["OrderStatus"])), ("OrderStatus", .ok ∅)]⟩ := by
  have order : trackedOrder.closure "Order" = .ok (.ofList ["OrderStatus"]) := by
    show trackedOrder.search "Order" ["Order", "OrderStatus"] ∅ [("Order", "OrderStatus")] = _
    rw [Registry.search_of_fresh (by decide) rfl rfl (by decide)]
    show trackedOrder.search "Order" _ _ [] = _
    rw [Registry.search]
    decide +kernel
  have status : trackedOrder.closure "OrderStatus" = .ok ∅ :=
    Registry.closure_of_refs_eq_nil rfl rfl
  show (⟨⟨[("Order", trackedOrder.closure "Order"),
    ("OrderStatus", trackedOrder.closure "OrderStatus")], _⟩⟩ : ClosureIndex) = _
  simp only [order, status]
  rfl

/-- The type of the reference is renamed along with that of the enum. -/
theorem not_keepsTargets_trackedOrder : ¬ KeepsTargets {} trackedOrder "Order" := by
  have differ : ((finals {} trackedOrder).get? "Order").any fun model =>
      model.properties.any fun property =>
        property.shape == .reference "OrderStatus" true && property.type == "OrderStatus2" := by
    unfold finals drafts
    rw [closures_trackedOrder]
    decide +kernel
  intro keeps
  cases found : (finals {} trackedOrder).get? "Order" with
  | none =>
    rw [found] at differ
    cases differ
  | some model =>
    rw [found, Option.any_some, List.any_eq_true] at differ
    obtain ⟨property, member, differ⟩ := differ
    obtain ⟨shape, type⟩ := Bool.and_eq_true_iff.1 differ
    rw [beq_iff_eq] at shape type
    obtain ⟨fields, object⟩ := exists_objectModel rfl found
    obtain ⟨list, -, places⟩ :=
      (keeps _ _ _ object).types property member "OrderStatus" (by rw [shape]; rfl)
    rw [shape, type] at places
    have same : Naming.typeName "OrderStatus" = "OrderStatus2" := by
      generalize "OrderStatus2" = word at places
      cases places
      rfl
    exact absurd same (by decide +kernel)

end ZodModules.Generation
