import ZodModules.Proofs.Expr.DiscriminatedUnions
import ZodModules.Proofs.Expr.MappedParts
import Mathlib.Data.List.Forall2

/-!
# Tagged unions

Which unions become discriminated ones, read off the schema: those with a discriminator and at least
two branches besides `null`, each of which is just a reference to a schema that the discriminator
tells apart.
-/

namespace ZodModules

namespace Schema

open Mapping (isNull)

/-- The schema that a value is of if it is never `null` and just a reference. -/
def target? : Schema → Option String
  | ⟨.ref target, metadata⟩ => if metadata.nullable then none else some target
  | ⟨.oneOf [branch] _, metadata⟩ => if metadata.nullable then none else branch.target?
  | _ => none

/-- The branches of a union that are not just `null`. -/
def valueBranches (branches : List Schema) : List Schema := branches.filter (!isNull ·)

theorem target?_of_isNull {schema : Schema} (null : isNull schema) : schema.target? = none := by
  obtain ⟨kind, metadata⟩ := schema
  cases kind with
  | null => simp [target?]
  | _ => cases null

/-- A union is just a reference if its only branch is. -/
theorem target?_oneOf {branches : List Schema} {discriminator : Option String}
    {metadata : Metadata} :
    (mk (.oneOf branches discriminator) metadata).target? =
      match valueBranches branches with
      | [branch] => if branches.any isNull || metadata.nullable then none else branch.target?
      | _ => none := by
  rcases branches with _ | ⟨branch, _ | ⟨second, rest⟩⟩
  · simp [target?, valueBranches]
  · by_cases null : isNull branch
    · simp [target?, valueBranches, null, target?_of_isNull null]
    · simp [target?, valueBranches, null]
  · have several : (mk (.oneOf (branch :: second :: rest) discriminator) metadata).target? = none := by
      simp [target?]
    rw [several]
    split
    · rename_i only single
      have dropped : (branch :: second :: rest).any isNull := by
        rw [List.any_eq_true]
        by_contra kept
        push Not at kept
        have all : valueBranches (branch :: second :: rest) = branch :: second :: rest :=
          List.filter_eq_self.2 fun b member => by simpa using kept b member
        rw [all] at single
        cases single
      rw [dropped]
      rfl
    · rfl

end Schema

namespace Mapping

open Schema (Part valueBranches)

variable {scope : Scope}

/-- Whether a property tells apart the values of a schema that its symbol stands for. -/
def Scope.tells (scope : Scope) (property target : String) : Bool :=
  !scope.explicitTyping && !scope.closes target && !scope.closures.isRecursive target &&
    (scope.registry.get? target).any (tellsApart property)

/-- The property and the schemas of a union that becomes a discriminated one. -/
def Scope.tagged? (scope : Scope) (schema : Schema) : Option (String × List String) :=
  match schema.kind with
  | .oneOf branches (some property) =>
    let values := valueBranches branches
    if 2 ≤ values.length ∧ values.all fun branch => branch.target?.any (scope.tells property) then
      some (property, values.filterMap Schema.target?)
    else none
  | _ => none

/-- The validator that is declared for a schema. -/
def Scope.symbol (scope : Scope) (target : String) : Validator :=
  .symbol (Naming.validatorName target scope.validatorSuffix)

/-- The discriminated unions that come from some parts. -/
def Scope.unions (scope : Scope) (parts : List Part) : List (String × List Validator) :=
  parts.filterMap fun part =>
    (scope.tagged? part.schema).map fun tagged => (tagged.1, tagged.2.map scope.symbol)

section Unions

variable {parts more : List Part}

theorem unions_append : scope.unions (parts ++ more) = scope.unions parts ++ scope.unions more :=
  List.filterMap_append

theorem unions_within {index : Nat} {segments : List String} :
    scope.unions (parts.map (.within index segments)) = scope.unions parts := by
  unfold Scope.unions
  rw [List.filterMap_map]
  rfl

theorem unions_whole_of_untagged {schema : Schema} (untagged : scope.tagged? schema = none) :
    scope.unions (.whole schema :: parts) = scope.unions parts := by
  refine List.filterMap_cons_none ?_
  rw [Part.whole, untagged]
  rfl

theorem unions_whole_of_tagged {schema : Schema} {property : String} {targets : List String}
    (tagged : scope.tagged? schema = some (property, targets)) :
    scope.unions (.whole schema :: parts) =
      (property, targets.map scope.symbol) :: scope.unions parts := by
  refine List.filterMap_cons_some ?_
  rw [Part.whole, tagged]
  rfl

theorem unions_branchParts {branches : List Schema} {count index number : Nat} :
    scope.unions (Schema.branchParts count index number branches) =
      (valueBranches branches).flatMap fun branch => scope.unions branch.mappedParts := by
  induction branches generalizing index number with
  | nil => simp [Schema.branchParts, Scope.unions, valueBranches]
  | cons branch rest ih =>
    by_cases null : isNull branch
    · rw [Schema.branchParts_null null, ih, valueBranches, valueBranches,
        List.filter_cons_of_neg (by simpa using null)]
    · rw [Schema.branchParts_cons null, unions_append, unions_within, ih, valueBranches,
        valueBranches, List.filter_cons_of_pos (by simpa using null), List.flatMap_cons]

end Unions

/-- What is known of the discriminated unions in a value, and of it as a member of one, from its
schema. -/
structure Tags (scope : Scope) (schema : Schema) (value : Mapped) : Prop where
  unions : value.validator.discriminatedUnions = scope.unions schema.mappedParts
  member : ∀ property,
    isDiscriminated scope property value = schema.target?.any (scope.tells property)
  symbol : ∀ target ∈ schema.target?, ¬ scope.closes target →
    value.applyNullable.validator = scope.symbol target

/-- A value that is no reference, of a schema that is none. -/
theorem Tags.plain {schema : Schema} {value : Mapped}
    (unions : value.validator.discriminatedUnions = scope.unions schema.mappedParts)
    (shape : ∀ target object, value.shape ≠ .reference target object)
    (target : schema.target? = none) : Tags scope schema value where
  unions := unions
  member property := by
    rw [target, isDiscriminated]
    split
    · exact absurd ‹_› (shape _ _)
    · rfl
  symbol name found := by
    rw [target] at found
    cases found

theorem isDiscriminated_orNull {property : String} {nullable : Bool} {value : Mapped} :
    isDiscriminated scope property (value.orNull nullable) =
      (!nullable && isDiscriminated scope property value) := by
  unfold isDiscriminated Mapped.orNull
  dsimp only
  split
  · cases nullable <;> simp
  · simp

theorem applyNullable_orNull_false (value : Mapped) :
    (value.orNull false).applyNullable = value.applyNullable := by
  simp [Mapped.orNull, Mapped.applyNullable]

theorem isDiscriminated_reference {property target : String} {schema : Schema}
    (registered : scope.registry.get? target = some schema) :
    isDiscriminated scope property (referenceValue scope target schema) =
      scope.tells property target := by
  have any : (referenceValue scope target schema).validator.isAny = scope.closes target := by
    unfold referenceValue
    by_cases closes : scope.closes target <;> simp [closes, Validator.isAny]
  unfold Scope.tells
  rw [← any, registered, Option.any_some]
  by_cases object : isObject schema
  · simp [isDiscriminated, referenceValue, object, registered]
  · have untold : tellsApart property schema = false := by
      obtain ⟨kind, metadata⟩ := schema
      cases kind with
      | object properties required => exact absurd rfl object
      | _ => rfl
    simp [isDiscriminated, referenceValue, object, untold]

theorem tags_reference {target : String} {schema : Schema} {metadata : Schema.Metadata}
    (registered : scope.registry.get? target = some schema) :
    Tags scope ⟨.ref target, metadata⟩
      ((referenceValue scope target schema).orNull metadata.nullable) where
  unions := by
    have noUnions : (referenceValue scope target schema).validator.discriminatedUnions = [] := by
      unfold referenceValue
      by_cases closes : scope.closes target <;> simp [closes, Validator.discriminatedUnions]
    rw [Schema.mappedParts, Schema.innerParts, unions_whole_of_untagged rfl]
    exact noUnions
  member property := by
    rw [isDiscriminated_orNull, isDiscriminated_reference registered, Schema.target?]
    cases metadata.nullable <;> simp
  symbol other found opens := by
    rw [Schema.target?] at found
    cases present : metadata.nullable with
    | true =>
      rw [present] at found
      cases found
    | false =>
      rw [present] at found
      cases found
      simp [referenceValue, Mapped.orNull, Mapped.applyNullable, Validator.orNull, opens,
        Scope.symbol]

section UnionOf

variable {branches : List Schema} {values : List Mapped} {property : String}

/-- The members of a union pass the check for members if its branches do. -/
theorem all_isDiscriminated (all : List.Forall₂ (Tags scope) branches values) :
    values.all (isDiscriminated scope property) =
      branches.all fun branch => branch.target?.any (scope.tells property) := by
  induction all with
  | nil => rfl
  | cons first _ ih => rw [List.all_cons, List.all_cons, ih, first.member]

theorem discriminatedUnionsAll_values (all : List.Forall₂ (Tags scope) branches values) :
    Validator.discriminatedUnionsAll ((values.map Mapped.applyNullable).map (·.validator)) =
      branches.flatMap fun branch => scope.unions branch.mappedParts := by
  induction all with
  | nil => simp [Validator.discriminatedUnionsAll]
  | cons first _ ih =>
    rw [List.map_cons, List.map_cons, Validator.discriminatedUnionsAll, ih, List.flatMap_cons,
      ← first.unions, Mapped.applyNullable, Validator.discriminatedUnions_orNull]

/-- Values that pass the check have the validators that are declared for what they refer to. -/
theorem validators_of_all (all : List.Forall₂ (Tags scope) branches values)
    (passing : branches.all fun branch => branch.target?.any (scope.tells property)) :
    (values.map Mapped.applyNullable).map (·.validator) =
      (branches.filterMap Schema.target?).map scope.symbol := by
  induction all with
  | nil => rfl
  | cons first _ ih =>
    rw [List.all_cons, Bool.and_eq_true, Option.any_eq_true] at passing
    obtain ⟨⟨target, found, told⟩, passing⟩ := passing
    have opens : ¬ scope.closes target := by
      unfold Scope.tells at told
      simp only [Bool.and_eq_true, Bool.not_eq_true'] at told
      simp [told.1.1.2]
    rw [List.map_cons, List.map_cons, List.filterMap_cons_some found, List.map_cons, ih passing,
      first.symbol target found opens]

theorem unions_unionOf {discriminator : Option String} {metadata : Schema.Metadata}
    (all : List.Forall₂ (Tags scope) (valueBranches branches) values) :
    (unionOf scope discriminator values).validator.discriminatedUnions =
      scope.unions (Schema.mk (.oneOf branches discriminator) metadata).mappedParts := by
  have length := all.length_eq
  have inner := discriminatedUnionsAll_values all
  rw [Schema.mappedParts_oneOf]
  rw [← @unions_branchParts scope branches (branches.countP (!isNull ·)) 0 0] at inner
  have untagged (few : ¬ 2 ≤ values.length) :
      scope.tagged? ⟨.oneOf branches discriminator, metadata⟩ = none := by
    cases discriminator <;> simp [Scope.tagged?, length, few]
  -- Fewer than two members make no union; of more the check of its branches decides.
  rcases values with _ | ⟨first, _ | ⟨second, rest⟩⟩
  · rw [unions_whole_of_untagged (untagged (by simp)), ← inner]
    rfl
  · rw [unions_whole_of_untagged (untagged (by simp)), ← inner]
    simp [unionOf, Validator.discriminatedUnionsAll, Mapped.applyNullable]
  · have several : 2 ≤ (valueBranches branches).length := by simp [length]
    simp only [unionOf]
    cases discriminator with
    | none =>
      rw [unions_whole_of_untagged rfl, ← inner]
      rw [Validator.discriminatedUnions]
    | some property =>
      dsimp only
      rw [all_isDiscriminated all]
      by_cases passing : (valueBranches branches).all
          fun branch => branch.target?.any (scope.tells property)
      · have tagged : scope.tagged? ⟨.oneOf branches (some property), metadata⟩ =
            some (property, (valueBranches branches).filterMap Schema.target?) := by
          simp only [Scope.tagged?, Schema.kind_mk]
          rw [if_pos ⟨several, passing⟩]
        rw [if_pos passing, unions_whole_of_tagged tagged, ← inner, Validator.discriminatedUnions,
          ← validators_of_all all passing]
      · have untagged : scope.tagged? ⟨.oneOf branches (some property), metadata⟩ = none := by
          simp only [Scope.tagged?, Schema.kind_mk]
          rw [if_neg fun both => passing both.2]
        rw [if_neg passing, unions_whole_of_untagged untagged, ← inner,
          Validator.discriminatedUnions]

theorem tags_oneOf {discriminator : Option String} {metadata : Schema.Metadata}
    (all : List.Forall₂ (Tags scope) (valueBranches branches) values) :
    Tags scope ⟨.oneOf branches discriminator, metadata⟩
      ((unionOf scope discriminator values).orNull
        (branches.any isNull || metadata.nullable)) where
  unions := unions_unionOf all
  member property := by
    rw [isDiscriminated_orNull, Schema.target?_oneOf]
    generalize valueBranches branches = kept at all
    rcases all with _ | ⟨first, _ | ⟨second, _⟩⟩
    · simp [unionOf, isDiscriminated]
    · rw [unionOf, first.member]
      cases branches.any isNull || metadata.nullable <;> simp
    · simp [unionOf, isDiscriminated]
  symbol target found opens := by
    rw [Schema.target?_oneOf] at found
    generalize valueBranches branches = kept at all found
    rcases all with _ | ⟨first, _ | ⟨second, _⟩⟩
    · cases found
    · cases present : branches.any isNull || metadata.nullable with
      | true =>
        rw [present] at found
        cases found
      | false =>
        rw [present] at found
        rw [applyNullable_orNull_false]
        exact first.symbol target found opens
    · cases found

end UnionOf

theorem tags_mapString {facets : Schema.StringFacets} {metadata : Schema.Metadata} {hint : String}
    {before after : State} {value : Mapped}
    (run : Yields (mapString scope facets hint) before value after) :
    Tags scope ⟨.string facets, metadata⟩ (value.orNull metadata.nullable) := by
  rcases yields_mapString run with ⟨-, -, rfl⟩ | ⟨literal, -, -, rfl⟩ | ⟨-, -, rfl⟩ <;>
    exact .plain rfl (by simp [Mapped.orNull, enumValue]) (by simp [Schema.target?])

/-- The discriminated unions of a mapping, kind by kind. -/
theorem tags_rules : Rules scope (fun schema _ _ _ value _ => Tags scope schema value)
    (fun _ _ _ _ branches _ values _ =>
      List.Forall₂ (Tags scope) (valueBranches branches) values) where
  string := tags_mapString
  number := .plain rfl (by simp [Mapped.orNull]) (by simp [Schema.target?])
  boolean := .plain rfl (by simp [Mapped.orNull]) (by simp [Schema.target?])
  null := .plain rfl (by simp [Mapped.orNull]) (by simp [Schema.target?])
  emptyObject := .plain rfl (by simp [Mapped.orNull, unknownValue]) (by simp [Schema.target?])
  dictionary := by
    intro name first rest required metadata hint path before value after uniform _ ih
    refine .plain ?_ (by simp [Mapped.orNull, recordOf]) (by simp [Schema.target?])
    rw [Schema.mappedParts_dictionary uniform, unions_whole_of_untagged rfl, unions_within,
      ← ih.unions]
    exact Validator.discriminatedUnions_orNull _ _
  literalObject := by
    intro name first rest required metadata hint path before mixed
    refine .plain ?_ (by simp [Mapped.orNull, unknownValue]) (by simp [Schema.target?])
    rw [Schema.mappedParts_literalObject mixed, unions_whole_of_untagged rfl]
    rfl
  record := by
    intro item metadata hint path before value after _ ih
    refine .plain ?_ (by simp [Mapped.orNull, recordOf]) (by simp [Schema.target?])
    rw [Schema.mappedParts_record, unions_whole_of_untagged rfl, unions_within, ← ih.unions]
    exact Validator.discriminatedUnions_orNull _ _
  untypedArray := .plain rfl (by simp [Mapped.orNull, arrayOf]) (by simp [Schema.target?])
  array := by
    intro items metadata hint path before value after _ ih
    refine .plain ?_ (by simp [Mapped.orNull, arrayOf]) (by simp [Schema.target?])
    rw [Schema.mappedParts_array, unions_whole_of_untagged rfl, unions_within, ← ih.unions]
    exact Validator.discriminatedUnions_orNull _ _
  oneOf _ := tags_oneOf
  ref := tags_reference
  done := .nil
  skip := by
    intro branch branches hint path count index before values after null ih
    rwa [valueBranches, List.filter_cons_of_neg (by simpa using null)]
  next := by
    intro branch branches hint path count index before value middle values after notNull _ first
      rest
    rw [valueBranches, List.filter_cons_of_pos (by simpa using notNull)]
    exact .cons first rest

end Mapping

end ZodModules
