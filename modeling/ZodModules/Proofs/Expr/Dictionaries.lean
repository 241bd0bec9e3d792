import ZodModules.Proofs.Expr.MappingTasks

/-!
# Dictionaries

An object is read as a dictionary if its properties designate one element. What it maps to is taken
from the first property, of which the element tells all but what may be `null`.
-/

namespace ZodModules

/-- What may be `null` of an element: it itself, and the items if it is an array. -/
def Schema.nullability (schema : Schema) : Bool × Bool :=
  (schema.metadata.nullable,
    match schema.kind with
    | .array (some items) => items.metadata.nullable
    | _ => false)

namespace Validator

theorem text_record (indent : String) (value : Validator) :
    (record value).text indent = "z.record(z.string(), " ++ value.text indent ++ ")" := rfl

theorem text_array (indent : String) (item : Validator) :
    (array item).text indent = "z.array(" ++ item.text indent ++ ")" := rfl

theorem text_nullable (indent : String) (inner : Validator) :
    (nullable inner).text indent = inner.text indent ++ ".nullable()" := rfl

theorem text_orNull (indent : String) (nullable : Bool) (validator : Validator) :
    (validator.orNull nullable).text indent =
      validator.text indent ++ if nullable then ".nullable()" else "" := by
  cases nullable
  · simp only [orNull, Bool.false_eq_true, if_false, String.append_empty]
  · simp only [orNull, if_true, text_nullable]

end Validator

namespace Mapping

variable {scope : Scope} {α β : Type}

theorem outcome_bind_pure (step : MapM α) (f : α → β) (before : State) :
    outcome (step >>= fun a => pure (f a)) before =
      ((outcome step before).1.map f, (outcome step before).2) := by
  rw [outcome_bind]
  cases (outcome step before).1 <;> rfl

/-- A reference fails, or maps to the symbol or placeholder for what it refers to. -/
theorem outcome_mapReference (target : String) (before : State) :
    outcome (mapReference scope target) before =
      match scope.registry.get? target with
      | none => (.error ⟨scope.owner, target⟩, before)
      | some schema => (.ok (referenceValue scope target schema), before.visit scope target) := by
  cases registered : scope.registry.get? target with
  | none =>
    unfold mapReference
    rw [registered]
    rfl
  | some schema => exact yields_mapReference.2 ⟨schema, registered, rfl, rfl⟩

/-- What an element maps to, with what may be `null` of it. -/
def elementValue (scope : Scope) (element : Element) (nullability : Bool × Bool)
    (schema : Schema) : Mapped :=
  let reference := referenceValue scope element.target schema
  if element.array then (arrayOf (reference.orNull nullability.2)).orNull nullability.1
  else reference.orNull nullability.1

theorem outcome_of_element {schema : Schema} {element : Element}
    (designates : element? schema = some element) (hint path : String) (before : State) :
    outcome (mapValue scope schema hint path) before =
      match scope.registry.get? element.target with
      | none => (.error ⟨scope.owner, element.target⟩, before)
      | some target =>
        (.ok (elementValue scope element schema.nullability target),
          before.visit scope element.target) := by
  obtain ⟨kind, metadata⟩ := schema
  cases kind with
  | ref target =>
    cases designates
    rw [mapValue, outcome_bind_pure, outcome_mapReference]
    cases scope.registry.get? target <;> rfl
  | array items =>
    obtain _ | ⟨kind, inner⟩ := items
    · cases designates
    · cases kind with
      | ref target =>
        cases designates
        rw [mapValue, outcome_bind_pure, mapValue, outcome_bind_pure, outcome_mapReference]
        cases scope.registry.get? target <;> rfl
      | _ => cases designates
  | _ => cases designates

section Properties

variable {element : Element} {properties : List (Schema.Property Schema)} {required : NameSet}
  {metadata : Schema.Metadata} {hint path : String} {before : State}

/-- A dictionary fails or succeeds as the first of its properties does. -/
theorem outcome_dictionary {first : Schema.Property Schema} {rest : List (Schema.Property Schema)}
    (uniform : ∀ property ∈ first :: rest, element? property.schema = some element) :
    outcome (mapValue scope ⟨.object (first :: rest) required, metadata⟩ hint path) before =
      match scope.registry.get? element.target with
      | none => (.error ⟨scope.owner, element.target⟩, before)
      | some target =>
        (.ok ((recordOf (elementValue scope element first.schema.nullability target)).orNull
          metadata.nullable), before.visit scope element.target) := by
  obtain ⟨own, others⟩ := List.forall_mem_cons.1 uniform
  have dictionary : isDictionary first rest := by
    rw [isDictionary, own, Bool.and_eq_true, List.all_eq_true]
    exact ⟨rfl, fun property member => by rw [others property member, beq_self_eq_true]⟩
  rw [mapValue, if_pos dictionary, outcome_bind_pure, outcome_of_element own]
  cases scope.registry.get? element.target <;> rfl

/-- What follows the symbol in the validator of an element. -/
def nullableEnding (array : Bool) (nullability : Bool × Bool) : String :=
  let own := if nullability.1 then ".nullable()" else ""
  if array then (if nullability.2 then ".nullable()" else "") ++ ")" ++ own else own

theorem nullableEnding_injective : ∀ (array own items own' items' : Bool),
    (array ∨ items = items') →
    nullableEnding array (own, items) = nullableEnding array (own', items') →
    (own, items) = (own', items') := by
  decide +kernel

theorem validator_elementValue (nullability : Bool × Bool) (target : Schema) :
    (elementValue scope element nullability target).applyNullable.validator =
      let reference := (referenceValue scope element.target target).validator
      if element.array then (Validator.array (reference.orNull nullability.2)).orNull nullability.1
      else reference.orNull nullability.1 := by
  obtain ⟨array, name⟩ := element
  cases array <;> rfl

theorem text_elementValue (indent : String) (nullability : Bool × Bool) (target : Schema) :
    (elementValue scope element nullability target).applyNullable.validator.text indent =
      (if element.array then "z.array(" else "") ++
        (referenceValue scope element.target target).validator.text indent ++
          nullableEnding element.array nullability := by
  rw [validator_elementValue]
  unfold nullableEnding
  by_cases array : element.array
  · simp only [array, if_true, Validator.text_orNull, Validator.text_array, String.append_assoc]
  · simp only [array, if_false, Bool.false_eq_true, Validator.text_orNull, String.empty_append]

theorem nullability_of_not_array {schema : Schema} (designates : element? schema = some element)
    (single : ¬ element.array) : schema.nullability.2 = false := by
  obtain ⟨kind, metadata⟩ := schema
  cases kind with
  | ref target => rfl
  | array items =>
    obtain _ | items := items
    · rfl
    · obtain ⟨target, -, same⟩ := Option.map_eq_some_iff.1 designates
      exact absurd (same ▸ rfl) single
  | _ => rfl

/-- The validators of two elements tell apart what may be `null` of them. -/
theorem text_elementValue_eq_iff {schema other : Schema} (indent : String) (target : Schema)
    (designates : element? schema = some element) (designates' : element? other = some element) :
    (elementValue scope element schema.nullability target).applyNullable.validator.text indent =
        (elementValue scope element other.nullability target).applyNullable.validator.text indent ↔
      schema.nullability = other.nullability := by
  constructor
  · rw [text_elementValue, text_elementValue, String.append_right_inj]
    apply nullableEnding_injective
    by_cases array : element.array
    · exact Or.inl array
    · exact Or.inr ((nullability_of_not_array designates array).trans
        (nullability_of_not_array designates' array).symm)
  · intro same
    rw [same]

/-- The texts that a step comes to from a state. -/
def expressions (indent : String) (step : MapM Mapped) (before : State) :
    Except ResolutionError (String × String) :=
  (outcome step before).1.map fun value => (value.validator.text indent, value.type.text)

/-- Which properties agree with the first of a dictionary. -/
theorem expressions_dictionary_eq_iff {first other : Schema.Property Schema}
    {rest rest' : List (Schema.Property Schema)} (indent : String)
    (uniform : ∀ property ∈ first :: rest, element? property.schema = some element)
    (uniform' : ∀ property ∈ other :: rest', element? property.schema = some element) :
    expressions indent
        (mapValue scope ⟨.object (first :: rest) required, metadata⟩ hint path) before =
      expressions indent
        (mapValue scope ⟨.object (other :: rest') required, metadata⟩ hint path) before ↔
      (scope.registry.contains element.target →
        first.schema.nullability = other.schema.nullability) := by
  unfold expressions
  rw [outcome_dictionary uniform, outcome_dictionary uniform']
  show _ ↔ ((scope.registry.get? element.target).isSome → _)
  cases scope.registry.get? element.target with
  | none => simp [Except.map]
  | some target =>
    have texts := @text_elementValue_eq_iff scope element first.schema other.schema indent target
      (uniform first List.mem_cons_self) (uniform' other List.mem_cons_self)
    constructor
    · intro same _
      have validators := congrArg Prod.fst (Except.ok.inj same)
      simp only [Mapped.orNull, recordOf, Validator.text_record, String.append_left_inj,
        String.append_right_inj] at validators
      exact texts.1 validators
    · intro same
      rw [same rfl]

/-- Each property is the first of some order of them. -/
theorem exists_perm_cons {property : Schema.Property Schema} (member : property ∈ properties) :
    ∃ rest, (property :: rest).Perm properties := by
  obtain ⟨before, after, rfl⟩ := List.append_of_mem member
  exact ⟨before ++ after, List.perm_middle.symm⟩

/-- What the order of the properties of a dictionary matters for: not for what is noted, nor for the
error or the shape of the value and whether it may be `null`; but the validator and the type of the
first property stand for those of all, so these are the same in every order exactly if the same may be
`null` of all elements. -/
theorem dictionary_perm_iff (scope : Scope) (indent hint path : String) (required : NameSet)
    (metadata : Schema.Metadata) (before : State)
    (uniform : ∀ property ∈ properties, element? property.schema = some element) :
    let map (properties : List (Schema.Property Schema)) :=
      mapValue scope ⟨.object properties required, metadata⟩ hint path
    (∀ permuted, permuted.Perm properties →
      notesAfter (map permuted) before = notesAfter (map properties) before ∧
        (outcome (map permuted) before).1.map (fun value => (value.shape, value.nullable)) =
          (outcome (map properties) before).1.map fun value => (value.shape, value.nullable)) ∧
    ((∀ permuted, permuted.Perm properties →
        expressions indent (map permuted) before = expressions indent (map properties) before) ↔
      (scope.registry.contains element.target → ∀ property ∈ properties, ∀ other ∈ properties,
        property.schema.nullability = other.schema.nullability)) := by
  intro map
  constructor
  · intro permuted perm
    rcases properties with _ | ⟨first, rest⟩
    · rw [perm.eq_nil]
      exact ⟨rfl, rfl⟩
    · rcases permuted with _ | ⟨other, others⟩
      · exact absurd perm.symm.eq_nil (List.cons_ne_nil _ _)
      have uniform' : ∀ property ∈ other :: others, element? property.schema = some element :=
        fun property member => uniform property (perm.mem_iff.1 member)
      unfold notesAfter
      simp only [map, outcome_dictionary uniform, outcome_dictionary uniform']
      cases scope.registry.get? element.target <;> exact ⟨rfl, rfl⟩
  · constructor
    · -- Any two properties can be put first, and each order then shows what may be `null` of it.
      intro same registered property member other member'
      obtain ⟨rest, perm⟩ := exists_perm_cons member
      obtain ⟨rest', perm'⟩ := exists_perm_cons member'
      refine (expressions_dictionary_eq_iff indent ?_ ?_).1 ((same _ perm).trans (same _ perm').symm)
        registered
      · exact fun property member => uniform property (perm.mem_iff.1 member)
      · exact fun property member => uniform property (perm'.mem_iff.1 member)
    · intro same permuted perm
      rcases properties with _ | ⟨first, rest⟩
      · rw [perm.eq_nil]
      · rcases permuted with _ | ⟨other, others⟩
        · exact absurd perm.symm.eq_nil (List.cons_ne_nil _ _)
        refine (expressions_dictionary_eq_iff indent ?_ uniform).2 fun registered => ?_
        · exact fun property member => uniform property (perm.mem_iff.1 member)
        · exact same registered _ (perm.mem_iff.1 List.mem_cons_self) _ List.mem_cons_self

end Properties

section Prices

/-- There are prices. -/
def prices : Scope where
  owner := "User"
  registry := .ofList [("Price", .ofKind (.object [⟨"amount", .ofKind (.number {})⟩] ∅))]
  closures := ⟨.ofList [("Price", .ok ∅)]⟩
  validatorSuffix := "ValidationSchema"
  explicitTyping := false

/-- A price under the name of its currency, which may be unknown. -/
def priceIn (currency : String) (unknown : Bool) : Schema.Property Schema :=
  ⟨currency, ⟨.ref "Price", { nullable := unknown }⟩⟩

/-- If the prices in both currencies may be unknown, then their order does not matter. -/
theorem same_unknown_prices :
    (∀ property ∈ [priceIn "eur" true, priceIn "usd" true],
      element? property.schema = some ⟨false, "Price"⟩) ∧
    expressions "  " (mapValue prices (.ofKind (.object
        [priceIn "usd" true, priceIn "eur" true] ∅)) "prices" "prices") ∅ =
      expressions "  " (mapValue prices (.ofKind (.object
        [priceIn "eur" true, priceIn "usd" true] ∅)) "prices" "prices") ∅ := by
  have uniform : ∀ property ∈ [priceIn "eur" true, priceIn "usd" true],
      element? property.schema = some ⟨false, "Price"⟩ := by
    simp [priceIn, element?]
  refine ⟨uniform, ?_⟩
  refine (dictionary_perm_iff prices "  " "prices" "prices" ∅ {} ∅ uniform).2.2 ?_ _
    (.swap _ _ _)
  intro _ property member other member'
  simp only [List.mem_cons, List.not_mem_nil, or_false] at member member'
  rcases member with rfl | rfl <;> rcases member' with rfl | rfl <;> rfl

/-- If only that in one currency may be, then the validator and the type depend on which price comes
first. -/
theorem not_same_prices :
    [priceIn "usd" false, priceIn "eur" true].Perm [priceIn "eur" true, priceIn "usd" false] ∧
    expressions "  " (mapValue prices (.ofKind (.object
        [priceIn "eur" true, priceIn "usd" false] ∅)) "prices" "prices") ∅ =
      .ok ("z.record(z.string(), PriceValidationSchema.nullable())",
        "Record<string, Price | null>") ∧
    expressions "  " (mapValue prices (.ofKind (.object
        [priceIn "usd" false, priceIn "eur" true] ∅)) "prices" "prices") ∅ =
      .ok ("z.record(z.string(), PriceValidationSchema)", "Record<string, Price>") :=
  ⟨.swap _ _ _, by decide +kernel⟩

end Prices

end Mapping

end ZodModules
