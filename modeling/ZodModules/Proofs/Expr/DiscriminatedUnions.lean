import ZodModules.Proofs.Expr.MappingReferences

/-!
# Discriminated unions of expressions

The members of the discriminated unions that a mapping makes are symbols of schemas which it refers
to and which qualify: none of them reaches itself, and the property tells its values apart.
-/

namespace ZodModules.Validator

mutual

/-- The discriminated unions in an expression, each with its property and its members. -/
def discriminatedUnions : Validator → List (String × List Validator)
  | record value => value.discriminatedUnions
  | array item => item.discriminatedUnions
  | union members => discriminatedUnionsAll members
  | discriminatedUnion property members => (property, members) :: discriminatedUnionsAll members
  | object fields => discriminatedUnionsFields fields
  | nullable inner => inner.discriminatedUnions
  | optional inner => inner.discriminatedUnions
  | described inner _ => inner.discriminatedUnions
  | defaulted inner _ => inner.discriminatedUnions
  | any | string _ | literal _ | enum _ | number _ | boolean | null | symbol _ => []

/-- The discriminated unions in some expressions. -/
def discriminatedUnionsAll : List Validator → List (String × List Validator)
  | [] => []
  | member :: members => member.discriminatedUnions ++ discriminatedUnionsAll members

/-- The discriminated unions in the expressions of some fields. -/
def discriminatedUnionsFields : List (String × Validator) → List (String × List Validator)
  | [] => []
  | (_, value) :: fields => value.discriminatedUnions ++ discriminatedUnionsFields fields

end

variable {union : String × List Validator}

theorem mem_discriminatedUnionsAll {members : List Validator} :
    union ∈ discriminatedUnionsAll members ↔
      ∃ member ∈ members, union ∈ member.discriminatedUnions := by
  induction members with
  | nil => simp [discriminatedUnionsAll]
  | cons member members ih => simp [discriminatedUnionsAll, ih]

theorem mem_discriminatedUnionsFields {fields : List (String × Validator)} :
    union ∈ discriminatedUnionsFields fields ↔
      ∃ field ∈ fields, union ∈ field.2.discriminatedUnions := by
  induction fields with
  | nil => simp [discriminatedUnionsFields]
  | cons field fields ih => simp [discriminatedUnionsFields, ih]

@[simp] theorem discriminatedUnions_orNull (nullable : Bool) (validator : Validator) :
    (validator.orNull nullable).discriminatedUnions = validator.discriminatedUnions := by
  cases nullable <;> simp [orNull, discriminatedUnions]

@[simp] theorem discriminatedUnions_describe? (description : Option String)
    (validator : Validator) :
    (validator.describe? description).discriminatedUnions = validator.discriminatedUnions := by
  cases description <;> simp [describe?, discriminatedUnions]

end ZodModules.Validator

namespace ZodModules.Mapping

variable {scope : Scope} {cited : List String}

/-- A schema qualifies as a member of a union that a property tells apart. -/
structure Qualifies (scope : Scope) (property target : String) : Prop where
  inferred : ¬ scope.explicitTyping
  acyclic : ¬ scope.closures.isRecursive target
  told : ∃ schema, scope.registry.get? target = some schema ∧ tellsApart property schema

/-- Among what a value is made of, only a reference has the shape of one; and the members of
discriminated unions are symbols of cited schemas that qualify. -/
structure Discriminates (scope : Scope) (cited : List String) (value : Mapped) : Prop where
  reference : ∀ target object, value.shape = .reference target object → target ∈ cited ∧
    (value.validator = .any ∨
      value.validator = .symbol (Naming.validatorName target scope.validatorSuffix))
  members : ∀ union ∈ value.validator.discriminatedUnions, ∀ member ∈ union.2,
    ∃ target ∈ cited, Qualifies scope union.1 target ∧
      member = .symbol (Naming.validatorName target scope.validatorSuffix)

namespace Discriminates

variable {value : Mapped}

/-- A value without references and unions. -/
theorem plain (shape : ∀ target object, value.shape ≠ .reference target object)
    (unions : value.validator.discriminatedUnions = []) : Discriminates scope cited value where
  reference target object same := absurd same (shape target object)
  members union member := by
    rw [unions] at member
    cases member

theorem orNull (nullable : Bool) (h : Discriminates scope cited value) :
    Discriminates scope cited (value.orNull nullable) :=
  ⟨h.reference, h.members⟩

theorem mono {more : List String} (sub : ∀ t ∈ cited, t ∈ more)
    (h : Discriminates scope cited value) : Discriminates scope more value where
  reference target object same := by
    obtain ⟨member, either⟩ := h.reference target object same
    exact ⟨sub target member, either⟩
  members union inside member of_union := by
    obtain ⟨target, member, rest⟩ := h.members union inside member of_union
    exact ⟨target, sub target member, rest⟩

/-- Another value with the same unions that is no reference. -/
theorem of_value {result : Mapped} (h : Discriminates scope cited value)
    (shape : ∀ target object, result.shape ≠ .reference target object)
    (unions : result.validator.discriminatedUnions = value.validator.discriminatedUnions) :
    Discriminates scope cited result where
  reference target object same := absurd same (shape target object)
  members := by
    rw [unions]
    exact h.members

theorem recordOf (h : Discriminates scope cited value) :
    Discriminates scope cited (recordOf value) :=
  h.of_value (by simp [Mapping.recordOf])
    (by simp [Mapping.recordOf, Mapped.applyNullable, Validator.discriminatedUnions])

theorem arrayOf (h : Discriminates scope cited value) : Discriminates scope cited (arrayOf value) :=
  h.of_value (by simp [Mapping.arrayOf])
    (by simp [Mapping.arrayOf, Mapped.applyNullable, Validator.discriminatedUnions])

end Discriminates

/-- What passes the check for members is the symbol of a schema that qualifies. -/
theorem exists_qualifies_of_isDiscriminated {property : String} {value : Mapped}
    (h : Discriminates scope cited value) (passes : isDiscriminated scope property value) :
    ∃ target ∈ cited, Qualifies scope property target ∧ value.applyNullable.validator =
      .symbol (Naming.validatorName target scope.validatorSuffix) := by
  unfold isDiscriminated at passes
  split at passes
  · rename_i target shape
    simp only [Bool.and_eq_true, Bool.not_eq_true', Option.any_eq_true] at passes
    obtain ⟨⟨⟨⟨present, inferred⟩, notAny⟩, acyclic⟩, told⟩ := passes
    obtain ⟨member, any | symbol⟩ := h.reference target true shape
    · rw [any] at notAny
      cases notAny
    · refine ⟨target, member, ⟨by simp [inferred], by simp [acyclic], told⟩, ?_⟩
      rw [Mapped.applyNullable, present]
      exact symbol
  · cases passes

/-- A union of more than one value is discriminated only if all of them qualify. -/
theorem discriminates_unionOf {values : List Mapped} {discriminator : Option String}
    (h : ∀ value ∈ values, Discriminates scope cited value) :
    Discriminates scope cited (unionOf scope discriminator values) := by
  have inner {union : String × List Validator}
      (member : union ∈ Validator.discriminatedUnionsAll
        ((values.map Mapped.applyNullable).map (·.validator))) :
      ∃ value ∈ values, union ∈ value.validator.discriminatedUnions := by
    rw [Validator.mem_discriminatedUnionsAll] at member
    obtain ⟨validator, inside, member⟩ := member
    simp only [List.map_map, List.mem_map] at inside
    obtain ⟨value, present, rfl⟩ := inside
    rw [Function.comp_apply, Mapped.applyNullable, Validator.discriminatedUnions_orNull] at member
    exact ⟨value, present, member⟩
  rcases values with _ | ⟨first, _ | ⟨second, rest⟩⟩
  · exact .plain (by simp [unionOf]) (by simp [unionOf, Validator.discriminatedUnions])
  · exact h first List.mem_cons_self
  · refine ⟨by simp [unionOf], ?_⟩
    intro union member
    simp only [unionOf] at member
    split at member
    · rw [Validator.discriminatedUnions] at member
      obtain ⟨value, present, inside⟩ := inner member
      exact (h value present).members union inside
    · rename_i property
      split at member
      · rename_i passing
        rw [Validator.discriminatedUnions] at member
        rcases List.mem_cons.1 member with rfl | member
        · -- The members of this union itself passed the check.
          intro validator of_union
          obtain ⟨_, applied, rfl⟩ := List.mem_map.1 of_union
          obtain ⟨value, present, rfl⟩ := List.mem_map.1 applied
          exact exists_qualifies_of_isDiscriminated (h value present)
            (List.all_eq_true.1 passing value present)
        · obtain ⟨value, present, inside⟩ := inner member
          exact (h value present).members union inside
      · rw [Validator.discriminatedUnions] at member
        obtain ⟨value, present, inside⟩ := inner member
        exact (h value present).members union inside

theorem discriminates_mapString {facets : Schema.StringFacets} {hint : String}
    {before after : State} {value : Mapped}
    (h : Yields (mapString scope facets hint) before value after) :
    Discriminates scope cited value := by
  rcases yields_mapString h with ⟨-, -, rfl⟩ | ⟨literal, -, -, rfl⟩ | ⟨-, -, rfl⟩
  · exact .plain (by simp) (by simp [Validator.discriminatedUnions])
  · exact .plain (by simp) (by simp [Validator.discriminatedUnions])
  · exact .plain (by simp [enumValue]) (by simp [enumValue, Validator.discriminatedUnions])

theorem discriminates_reference {target : String} {schema : Schema} :
    Discriminates scope [target] (referenceValue scope target schema) where
  reference other object same := by
    simp only [referenceValue, Shape.reference.injEq] at same
    refine ⟨List.mem_singleton.2 same.1.symm, ?_⟩
    rw [← same.1]
    unfold referenceValue
    split
    · exact Or.inl rfl
    · exact Or.inr rfl
  members union member := by
    simp only [referenceValue] at member
    split at member <;> simp [Validator.discriminatedUnions] at member

/-- What the discriminated unions of a mapping are made of, kind by kind. -/
theorem discriminates_rules : Rules scope
    (fun schema _ _ _ value _ => Discriminates scope schema.refs value)
    (fun _ _ _ _ branches _ values _ =>
      ∀ value ∈ values, Discriminates scope (Schema.branchRefs branches) value) where
  string run := (discriminates_mapString run).orNull _
  number := (Discriminates.plain (by simp) (by simp [Validator.discriminatedUnions])).orNull _
  boolean := (Discriminates.plain (by simp) (by simp [Validator.discriminatedUnions])).orNull _
  null := (Discriminates.plain (by simp) (by simp [Validator.discriminatedUnions])).orNull _
  emptyObject :=
    (Discriminates.plain (by simp [unknownValue])
      (by simp [unknownValue, Validator.discriminatedUnions])).orNull _
  dictionary := by
    intro name first rest required metadata hint path before value after _ _ ih
    rw [Schema.refs, Schema.propertyRefs]
    exact (ih.mono fun _ member => List.mem_append_left _ member).recordOf.orNull _
  literalObject _ :=
    (Discriminates.plain (by simp [unknownValue])
      (by simp [unknownValue, Validator.discriminatedUnions])).orNull _
  record _ ih := by
    rw [Schema.refs]
    exact ih.recordOf.orNull _
  untypedArray :=
    (Discriminates.plain (by simp [arrayOf])
      (by simp [arrayOf, unknownValue, Mapped.applyNullable, Validator.discriminatedUnions])).orNull _
  array _ ih := by
    rw [Schema.refs]
    exact ih.arrayOf.orNull _
  oneOf _ ih := by
    rw [Schema.refs]
    exact (discriminates_unionOf ih).orNull _
  ref _ := by
    rw [Schema.refs]
    exact discriminates_reference.orNull _
  done value member := absurd member List.not_mem_nil
  skip _ ih value member := by
    rw [Schema.branchRefs]
    exact (ih value member).mono fun _ cited => List.mem_append_right _ cited
  next _ _ first rest value member := by
    rw [Schema.branchRefs]
    rcases List.mem_cons.1 member with rfl | member
    · exact first.mono fun _ cited => List.mem_append_left _ cited
    · exact (rest value member).mono fun _ cited => List.mem_append_right _ cited

end ZodModules.Mapping
