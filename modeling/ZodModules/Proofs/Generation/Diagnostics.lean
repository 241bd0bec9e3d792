import ZodModules.Proofs.Expr.PlaceholderCounts
import ZodModules.Proofs.Generation.Roots

/-!
# Diagnostics of a whole schema

What is noted while a schema is generated, and where its expression accepts any value: both follow
the parts of the schema that are mapped, property by property if it is an object.
-/

namespace ZodModules.Generation

open Mapping

variable {scope : Scope} {indent : String} {required : NameSet}

@[simp] theorem childPath_empty (segment : String) : childPath "" segment = segment := rfl

theorem reports_generateProperty {property : Schema.Property Schema} {before : State} :
    Reports (generateProperty scope indent required property) before
      (scope.notes property.name property.schema.mappedParts) :=
  (reports_mapValue property.schema).bind_pure _

/-- What is reported of some properties. -/
theorem reports_properties {properties : List (Schema.Property Schema)} {index : Nat}
    {before : State} :
    Reports (properties.mapM (generateProperty scope indent required)) before
      (scope.notes "" (Schema.propertyParts index properties)) := by
  induction properties generalizing index before with
  | nil =>
    rw [List.mapM_nil]
    exact .pure _
  | cons property rest ih =>
    rw [List.mapM_cons, Schema.propertyParts, notes_append, notes_within, List.foldl_cons,
      List.foldl_nil, childPath_empty]
    exact reports_generateProperty.bind fun field middle _ => ih.bind_pure _

theorem rootParts_of_value {schema : Schema} (value : ¬ isObject schema) :
    schema.rootParts = schema.mappedParts := by
  obtain ⟨kind, metadata⟩ := schema
  cases kind with
  | object properties required => exact absurd rfl value
  | _ => rfl

/-- What is reported of a whole schema. -/
theorem reports_generateRoot (schema : Schema) {before : State} :
    Reports (generateRoot scope indent schema) before (scope.notes "" schema.rootParts) := by
  rcases object_or_value schema with ⟨properties, required, metadata, rfl⟩ | value
  · exact reports_properties.bind_pure _
  · rw [generateRoot_of_value value, rootParts_of_value value]
    exact (reports_mapValue schema).bind_pure _

@[simp] theorem placeholders_propertyValidator (value : Mapped) (metadata : Schema.Metadata)
    (required : Bool) :
    (propertyValidator value metadata required).placeholders = value.validator.placeholders := by
  unfold propertyValidator
  cases metadata.default? <;> cases required <;> simp [Validator.placeholders]

/-- The placeholders of an object's fields are those of the values of its properties. -/
theorem placeholders_threads {properties : List (Schema.Property Schema)} {before after : State}
    {values : List Mapped} (threads : Threads scope properties before values after) (index : Nat) :
    Validator.placeholdersFields ((List.zipWith (fieldOf indent required) properties values).map
        fun field => (field.2.name, field.1)) =
      scope.blanks (Schema.propertyParts index properties) := by
  induction threads generalizing index with
  | nil => rfl
  | cons first _ ih =>
    rw [List.zipWith_cons_cons, List.map_cons, Validator.placeholdersFields, ih (index + 1),
      Schema.propertyParts, blanks_append, blanks_within, ← placeholders_rules.hold _ first]
    simp [fieldOf]

/-- There is a placeholder for each part of a schema that has no other expression. -/
theorem placeholders_generateRoot {schema : Schema} {before after : State} {root : Root}
    (run : Yields (generateRoot scope indent schema) before root after) :
    (rootValidator schema root).placeholders = scope.blanks schema.rootParts := by
  rw [rootValidator, Validator.placeholders_orNull, Validator.placeholders_describe?]
  rcases generateRoot_cases run with
    ⟨properties, required, metadata, values, rfl, threads, rfl⟩ | ⟨value, mapped, mapping, rfl⟩
  · exact placeholders_threads threads 0
  · rw [rootParts_of_value value]
    exact placeholders_rules.hold schema mapping

end ZodModules.Generation
