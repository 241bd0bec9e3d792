import ZodModules.Proofs.Expr.MappedParts

/-!
# Numbers of placeholders

An expression accepts any value in as many places as the mapping comes to parts that have no other
expression: objects without properties, of which nothing is reported, and those parts of which
something is.
-/

namespace ZodModules

namespace Validator

mutual

/-- The number of placeholders in an expression, which accept any value. -/
def placeholders : Validator → Nat
  | any => 1
  | record value => value.placeholders
  | array item => item.placeholders
  | union members => placeholdersAll members
  | discriminatedUnion _ members => placeholdersAll members
  | object fields => placeholdersFields fields
  | nullable inner => inner.placeholders
  | optional inner => inner.placeholders
  | described inner _ => inner.placeholders
  | defaulted inner _ => inner.placeholders
  | string _ | literal _ | enum _ | number _ | boolean | null | symbol _ => 0

/-- The number of placeholders in some expressions. -/
def placeholdersAll : List Validator → Nat
  | [] => 0
  | member :: members => member.placeholders + placeholdersAll members

/-- The number of placeholders in the expressions of some fields. -/
def placeholdersFields : List (String × Validator) → Nat
  | [] => 0
  | (_, value) :: fields => value.placeholders + placeholdersFields fields

end

@[simp] theorem placeholders_orNull (nullable : Bool) (validator : Validator) :
    (validator.orNull nullable).placeholders = validator.placeholders := by
  cases nullable <;> simp [orNull, placeholders]

@[simp] theorem placeholders_describe? (description : Option String) (validator : Validator) :
    (validator.describe? description).placeholders = validator.placeholders := by
  cases description <;> simp [describe?, placeholders]

end Validator

/-- Whether a schema is an object without properties. -/
def Schema.isOpenObject (schema : Schema) : Bool :=
  match schema.kind with
  | .object [] _ => true
  | _ => false

namespace Mapping

open Schema (Part)

variable {scope : Scope}

/-- Whether a value of a schema has no expression but a placeholder of its own. -/
def Scope.isBlank (scope : Scope) (schema : Schema) : Bool :=
  schema.isOpenObject || schema.degradation?.isSome || (scope.closing? schema).isSome

/-- The number of parts that have placeholders of their own. -/
def Scope.blanks (scope : Scope) (parts : List Part) : Nat :=
  parts.countP fun part => scope.isBlank part.schema

/-- The number of parts that are objects without properties. -/
def openObjects (parts : List Part) : Nat := parts.countP fun part => part.schema.isOpenObject

section Counts

variable {parts more : List Part}

theorem blanks_append : scope.blanks (parts ++ more) = scope.blanks parts + scope.blanks more :=
  List.countP_append

theorem blanks_within {index : Nat} {segments : List String} :
    scope.blanks (parts.map (.within index segments)) = scope.blanks parts :=
  List.countP_map

theorem blanks_whole_cons {schema : Schema} :
    scope.blanks (.whole schema :: parts) =
      scope.blanks parts + if scope.isBlank schema then 1 else 0 :=
  List.countP_cons

/-- A part has a placeholder of its own if it is an object without properties, of which nothing is
reported, or else if something is reported of it. -/
theorem isBlank_eq (scope : Scope) (path : String) (schema : Schema) :
    (if scope.isBlank schema then 1 else 0) =
      (if (scope.note? path schema).isSome then 1 else 0) +
        if schema.isOpenObject then 1 else 0 := by
  have told : (scope.note? path schema).isSome =
      (schema.degradation?.isSome || (scope.closing? schema).isSome) := by
    simp [Scope.note?]
  -- Nothing is reported of an object without properties, so no part counts twice.
  by_cases openObject : schema.isOpenObject
  · have silent : scope.note? path schema = none := by
      obtain ⟨kind, metadata⟩ := schema
      unfold Schema.isOpenObject at openObject
      split at openObject
      · rename_i required same
        cases same
        rfl
      · cases openObject
    simp [Scope.isBlank, openObject, silent]
  · simp [Scope.isBlank, openObject, told]

theorem blanks_eq (scope : Scope) (path : String) (parts : List Part) :
    scope.blanks parts = (scope.notes path parts).length + openObjects parts := by
  unfold Scope.blanks Scope.notes openObjects
  rw [List.length_filterMap_eq_countP]
  induction parts with
  | nil => rfl
  | cons part parts ih =>
    have own := isBlank_eq scope (part.pathFrom path) part.schema
    simp only [List.countP_cons]
    omega

end Counts

theorem placeholdersAll_applied (values : List Mapped) :
    Validator.placeholdersAll ((values.map Mapped.applyNullable).map (·.validator)) =
      Validator.placeholdersAll (values.map (·.validator)) := by
  induction values with
  | nil => rfl
  | cons value rest ih =>
    simp only [List.map_cons, Validator.placeholdersAll, ih, Mapped.applyNullable,
      Validator.placeholders_orNull]

/-- The placeholders of a union are those of its values. -/
theorem placeholders_unionOf {values : List Mapped} {discriminator : Option String} :
    (unionOf scope discriminator values).validator.placeholders =
      Validator.placeholdersAll (values.map (·.validator)) := by
  rcases values with _ | ⟨first, _ | ⟨second, rest⟩⟩
  · rfl
  · simp [unionOf, Validator.placeholdersAll]
  · rw [← placeholdersAll_applied]
    simp only [unionOf]
    split
    · rw [Validator.placeholders]
    · split <;> rw [Validator.placeholders]

theorem placeholders_mapString {facets : Schema.StringFacets} {hint : String} {before after : State}
    {value : Mapped} (run : Yields (mapString scope facets hint) before value after) :
    value.validator.placeholders = 0 := by
  rcases yields_mapString run with ⟨-, -, rfl⟩ | ⟨literal, -, -, rfl⟩ | ⟨-, -, rfl⟩ <;> rfl

theorem placeholders_reference {target : String} {metadata : Schema.Metadata} (schema : Schema) :
    (referenceValue scope target schema).validator.placeholders =
      scope.blanks (Schema.mk (.ref target) metadata).mappedParts := by
  rw [Schema.mappedParts, Schema.innerParts, blanks_whole_cons]
  by_cases closes : scope.closes target <;>
    simp [referenceValue, closes, Scope.isBlank, Schema.isOpenObject, Schema.degradation?,
      Scope.closing?, Schema.refTarget?, Option.filter, Validator.placeholders, Scope.blanks]

/-- How many placeholders there are, kind by kind. -/
theorem placeholders_rules : Rules scope
    (fun schema _ _ _ value _ => value.validator.placeholders = scope.blanks schema.mappedParts)
    (fun _ _ count number branches _ values _ => ∀ index,
      Validator.placeholdersAll (values.map (·.validator)) =
        scope.blanks (Schema.branchParts count index number branches)) where
  string run := (placeholders_mapString run).trans rfl
  number := rfl
  boolean := rfl
  null := rfl
  emptyObject := rfl
  dictionary := by
    intro name first rest required metadata hint path before value after uniform _ ih
    have filled : ¬ scope.isBlank ⟨.object (⟨name, first⟩ :: rest) required, metadata⟩ := by
      simp [Scope.isBlank, Schema.isOpenObject, Schema.degradation?, uniform, Scope.closing?,
        Schema.refTarget?]
    rw [Schema.mappedParts_dictionary uniform, blanks_whole_cons, blanks_within, if_neg filled]
    exact (Validator.placeholders_orNull _ _).trans ih
  literalObject := by
    intro name first rest required metadata hint path before mixed
    have blank : scope.isBlank ⟨.object (⟨name, first⟩ :: rest) required, metadata⟩ := by
      simp [Scope.isBlank, Schema.degradation?, mixed]
    rw [Schema.mappedParts_literalObject mixed, blanks_whole_cons, if_pos blank]
    rfl
  record := by
    intro item metadata hint path before value after _ ih
    rw [Schema.mappedParts_record, blanks_whole_cons, blanks_within]
    exact (Validator.placeholders_orNull _ _).trans ih
  untypedArray := rfl
  array := by
    intro items metadata hint path before value after _ ih
    rw [Schema.mappedParts_array, blanks_whole_cons, blanks_within]
    exact (Validator.placeholders_orNull _ _).trans ih
  oneOf := by
    intro branches discriminator metadata hint path before values after _ ih
    rw [Schema.mappedParts_oneOf, blanks_whole_cons]
    exact placeholders_unionOf.trans (ih 0)
  ref := by
    intro target schema metadata hint path before _
    exact placeholders_reference schema
  done _ := rfl
  skip := by
    intro branch branches hint path count index before values after null ih place
    rw [Schema.branchParts_null null]
    exact ih (place + 1)
  next := by
    intro branch branches hint path count index before value middle values after notNull _ first
      rest
      place
    rw [Schema.branchParts_cons notNull, blanks_append, blanks_within, List.map_cons,
      Validator.placeholdersAll, first, rest (place + 1)]

end Mapping

end ZodModules
