import ZodModules.Proofs.Expr.DiscriminatedUnions
import ZodModules.Proofs.Generation.CycleGuards
import ZodModules.Proofs.Generation.Models

/-!
# Discriminated unions of a run

The members of a discriminated union are decided on from the schemas that they refer to. The models
that these schemas get in the same run are what the union takes them for: objects whose type is
inferred, with a property that tells their values apart.
-/

namespace ZodModules.Generation

open Mapping

variable {config : Config} {registry : Registry} {name : String} {property : String}

/-- The properties of each registered object have distinct names. -/
def DistinctProperties (registry : Registry) : Prop :=
  ∀ name properties required metadata,
    registry.get? name = some ⟨.object properties required, metadata⟩ →
      (properties.map (·.name)).Nodup

/-- A model that can be a member of a union which a property tells apart. -/
structure Discriminable (config : Config) (property : String) (model : Model) : Prop where
  isObject : model.isObject
  inferred : model.typing = .inferred
  acyclic : ¬ model.isRecursive
  /-- Nothing but a description is chained to the object. -/
  validator : ∃ fields, model.validator =
    ((Validator.object fields).describe? model.description).text config.indent.text
  declared : ∃ decision ∈ model.properties, decision.name = property
  told : ∀ decision ∈ model.properties, decision.name = property →
    decision.required ∧ ¬ decision.nullable ∧
      ((∃ constant, decision.shape = .enum constant) ∨
        ∃ value, decision.shape = .literal value)

/-- Each member of the discriminated unions in an expression is the symbol of a schema whose model
can be one. -/
def MembersDiscriminable (config : Config) (registry : Registry) (expression : Validator) : Prop :=
  ∀ union ∈ expression.discriminatedUnions, ∀ member ∈ union.2,
    ∃ target model, member = .symbol (config.validatorName target) ∧
      (drafts config registry).1.get? target = some model ∧ Discriminable config union.1 model

section Members

theorem discriminates_threads {scope : Scope} {properties : List (Schema.Property Schema)}
    {before after : State} {values : List Mapped}
    (threads : Threads scope properties before values after) :
    ∀ value ∈ values, Discriminates scope (Schema.propertyRefs properties) value := by
  induction threads with
  | nil => exact fun value member => absurd member List.not_mem_nil
  | cons first _ ih =>
    intro value member
    rw [Schema.propertyRefs]
    rcases List.mem_cons.1 member with rfl | member
    · exact (discriminates_rules.hold _ first).mono fun _ cited => List.mem_append_left _ cited
    · exact (ih value member).mono fun _ cited => List.mem_append_right _ cited

@[simp] theorem discriminatedUnions_propertyValidator (value : Mapped) (metadata : Schema.Metadata)
    (required : Bool) :
    (propertyValidator value metadata required).discriminatedUnions =
      value.validator.discriminatedUnions := by
  unfold propertyValidator
  cases metadata.default? <;> cases required <;> simp [Validator.discriminatedUnions]

/-- The members of the discriminated unions of a schema are symbols of schemas that it refers to and
that qualify. -/
theorem exists_qualifies_of_generateRoot {scope : Scope} {indent : String} {schema : Schema}
    {root : Root} {state : State} (run : Yields (generateRoot scope indent schema) ∅ root state)
    {union : String × List Validator}
    (inside : union ∈ (rootValidator schema root).discriminatedUnions) {member : Validator}
    (of_union : member ∈ union.2) :
    ∃ target ∈ schema.refs, Qualifies scope union.1 target ∧
      member = .symbol (Naming.validatorName target scope.validatorSuffix) := by
  rw [rootValidator, Validator.discriminatedUnions_orNull,
    Validator.discriminatedUnions_describe?] at inside
  rcases generateRoot_cases run with
    ⟨properties, required, metadata, values, rfl, threads, rfl⟩ | ⟨-, mapped, mapping, rfl⟩
  · rw [objectRoot, Validator.discriminatedUnions] at inside
    obtain ⟨_, listed, inside⟩ := Validator.mem_discriminatedUnionsFields.1 inside
    obtain ⟨field, present, rfl⟩ := List.mem_map.1 listed
    obtain ⟨source, -, value, mapped, rfl⟩ := exists_of_mem_fields present
    rw [Schema.refs]
    refine (discriminates_threads threads value mapped).members union ?_ member of_union
    simpa [fieldOf] using inside
  · exact (discriminates_rules.hold schema mapping).members union inside member of_union

end Members

section Targets

/-- A string with literals maps to a literal or a constant that is never `null`, unless the schema
says so. -/
theorem told_of_literals {scope : Scope} {facets : Schema.StringFacets}
    {metadata : Schema.Metadata} {hint path : String} {before after : State} {value : Mapped}
    (run : Yields (mapValue scope ⟨.string facets, metadata⟩ hint path) before value after)
    (literals : facets.literals ≠ []) :
    value.nullable = metadata.nullable ∧
      ((∃ constant, value.shape = .enum constant) ∨ ∃ text, value.shape = .literal text) := by
  rw [mapValue] at run
  obtain ⟨mapped, middle, mapping, returned⟩ := yields_bind.1 run
  obtain ⟨rfl, rfl⟩ := yields_pure.1 returned
  rcases yields_mapString mapping with ⟨unlisted, -, -⟩ | ⟨literal, -, -, rfl⟩ | ⟨-, -, rfl⟩
  · exact absurd unlisted literals
  · exact ⟨Bool.false_or _, Or.inr ⟨literal, rfl⟩⟩
  · exact ⟨Bool.false_or _, Or.inl ⟨_, rfl⟩⟩

/-- What a property that tells the values of an object apart is like. -/
theorem tellsApart_iff {properties : List (Schema.Property Schema)} {required : NameSet}
    {metadata : Schema.Metadata} :
    tellsApart property ⟨.object properties required, metadata⟩ ↔
      metadata.nullable = false ∧ required.contains property ∧
        ∃ facets inner, ⟨property, ⟨.string facets, inner⟩⟩ ∈ properties ∧
          inner.nullable = false ∧ facets.literals ≠ [] := by
  show (!metadata.nullable && required.contains property && properties.any _) = true ↔ _
  simp only [Bool.and_eq_true, Bool.not_eq_true', List.any_eq_true, beq_iff_eq, and_assoc]
  refine and_congr_right fun _ => and_congr_right fun _ => ?_
  constructor
  · rintro ⟨⟨_, kind, inner⟩, member, rfl, present, told⟩
    cases kind with
    | string facets => exact ⟨facets, inner, member, present, by simpa using told⟩
    | _ => cases told
  · rintro ⟨facets, inner, member, present, literals⟩
    exact ⟨_, member, rfl, present, by simpa using literals⟩

/-- The model of a schema that qualifies can be a member. -/
theorem discriminable_of_qualifies (distinct : DistinctProperties registry) {target : String}
    {model : Model} (found : (drafts config registry).1.get? target = some model)
    (qualifies : Qualifies (scopeOf config name registry (ClosureIndex.ofRegistry registry))
      property target) : Discriminable config property model := by
  obtain ⟨⟨kind, metadata⟩, root, state, registered, resolves, run, rfl⟩ :=
    exists_yields_of_draft found
  obtain ⟨schema, same, told⟩ := qualifies.told
  obtain rfl : (⟨kind, metadata⟩ : Schema) = schema := Option.some.inj (registered.symm.trans same)
  cases kind with
  | object properties required =>
    obtain ⟨present, isRequired, facets, inner, listed, inner_present, literals⟩ :=
      tellsApart_iff.1 told
    obtain ⟨reached, closure⟩ :=
      Registry.closure_isOk_iff.2 ⟨Registry.contains_of_get? registered, resolves⟩
    have acyclic : ¬ (modelOf config target ⟨.object properties required, metadata⟩
        (.ofRegistry registry) root state).isRecursive := by
      rw [isRecursive_modelOf_iff registered closure (guards_generateRoot run),
        ← ClosureIndex.isRecursive_ofRegistry_iff closure]
      exact qualifies.acyclic
    obtain ⟨values, threads, rfl⟩ := yields_objectRoot.1 run
    have nodup := distinct target properties required metadata registered
    let fields := List.zipWith (fieldOf config.indent.text required) properties values
    refine ⟨rfl, ?_, acyclic, ⟨fields.map fun field => (field.2.name, field.1), ?_⟩, ?_, ?_⟩
    · exact inferred_modelOf qualifies.inferred acyclic
    · show ((Validator.describe? metadata.description _).orNull metadata.nullable).text _ = _
      rw [present]
      rfl
    · obtain ⟨value, -, member⟩ := threads.exists_field config.indent.text required listed
      exact ⟨_, List.mem_map_of_mem member, rfl⟩
    · intro decision member own
      obtain ⟨field, inside, rfl⟩ := List.mem_map.1 member
      obtain ⟨source, declared, value, first, last, mapped, rfl⟩ :=
        threads.exists_yields_of_mem_fields inside
      -- The names are distinct, so the decision is that on the property with the literals.
      obtain rfl : source = ⟨property, ⟨.string facets, inner⟩⟩ :=
        List.inj_on_of_nodup_map nodup declared listed own
      obtain ⟨nullable, shape⟩ := told_of_literals mapped literals
      refine ⟨isRequired, ?_, shape⟩
      show ¬ value.nullable
      rw [nullable, inner_present]
      exact Bool.false_ne_true
  | _ => cases told

end Targets

/-- The members of discriminated unions qualify in the output: whatever discriminated union stands in
the validator that a run generates for a schema, its members are symbols of schemas whose models in
the same run are objects with an inferred type, not recursive and with nothing but a description
chained to them, in which the property is required, never `null` and an enum or a literal. -/
theorem members_are_discriminable (config : Config) (registry : Registry)
    (distinct : DistinctProperties registry) {name : String} {draft : Model}
    (found : (drafts config registry).1.get? name = some draft) :
    ∃ schema expression, registry.get? name = some schema ∧
      expression? config name schema registry (.ofRegistry registry) = some expression ∧
      draft.validator = expression.text config.indent.text ∧
      MembersDiscriminable config registry expression := by
  obtain ⟨schema, diagnostics, registered, resolves, ok⟩ := get?_drafts_iff.1 found
  obtain ⟨root, state, run, same⟩ := generate_eq_ok_iff.1 ok
  refine ⟨schema, _, registered, expression?_of_yields run, ?_, ?_⟩
  · exact congrArg (fun generated : Generated => generated.model.validator) same.symm
  · intro union inside member of_union
    obtain ⟨target, cited, qualifies, symbol⟩ :=
      exists_qualifies_of_generateRoot run inside of_union
    have reaches : registry.Reaches name target := .single ⟨schema, registered, cited⟩
    obtain ⟨model, modelled⟩ := (exists_draft_iff config).2
      ⟨resolves.contains reaches, resolves.of_reaches reaches⟩
    exact ⟨target, model, symbol, modelled, discriminable_of_qualifies distinct modelled qualifies⟩

section Pets

/-- Pets are cats or dogs, which their kind tells apart; there are two kinds of dogs. -/
def pets : Registry :=
  let pet (kinds : List String) : Schema :=
    .ofKind (.object [⟨"kind", .ofKind (.string { literals := kinds })⟩] (.ofList ["kind"]))
  .ofList [("Cat", pet ["cat"]), ("Dog", pet ["hound", "poodle"]),
    ("Pet", .ofKind (.oneOf [.ofKind (.ref "Cat"), .ofKind (.ref "Dog")] (some "kind")))]

theorem distinctProperties_pets : DistinctProperties pets := by
  have each : ∀ entry ∈ pets.schemas.entries, ∀ properties required,
      entry.2.kind = .object properties required → (properties.map (·.name)).Nodup := by
    intro entry member properties required object
    change entry ∈ [_, _, _] at member
    simp only [List.mem_cons, List.not_mem_nil, or_false] at member
    rcases member with rfl | rfl | rfl
    · cases object
      exact List.nodup_singleton _
    · cases object
      exact List.nodup_singleton _
    · cases object
  intro name properties required metadata found
  exact each _ (NameMap.mem_entries_iff.2 found) properties required rfl

theorem closures_pets :
    ClosureIndex.ofRegistry pets =
      ⟨NameMap.ofList [("Cat", .ok ∅), ("Dog", .ok ∅), ("Pet", .ok (.ofList ["Cat", "Dog"]))]⟩ := by
  have cat : pets.closure "Cat" = .ok ∅ := Registry.closure_of_refs_eq_nil rfl rfl
  have dog : pets.closure "Dog" = .ok ∅ := Registry.closure_of_refs_eq_nil rfl rfl
  have pet : pets.closure "Pet" = .ok (.ofList ["Cat", "Dog"]) := by
    show pets.search "Pet" ["Cat", "Dog", "Pet"] ∅ [("Pet", "Cat"), ("Pet", "Dog")] = _
    rw [Registry.search_of_fresh (by decide) rfl rfl (by decide)]
    show pets.search "Pet" _ _ [("Pet", "Dog")] = _
    rw [Registry.search_of_fresh (by decide) rfl rfl (by decide)]
    show pets.search "Pet" _ _ [] = _
    rw [Registry.search]
    exact congrArg Except.ok (by decide +kernel)
  show (⟨⟨[("Cat", pets.closure "Cat"), ("Dog", pets.closure "Dog"),
    ("Pet", pets.closure "Pet")], _⟩⟩ : ClosureIndex) = _
  simp only [cat, dog, pet]
  rfl

/-- Pets are generated as a discriminated union, of which cats and dogs can be members. -/
theorem discriminable_pets :
    DistinctProperties pets ∧ ∃ draft, (drafts {} pets).1.get? "Pet" = some draft ∧
      draft.validator =
        "z.discriminatedUnion(\"kind\", [CatValidationSchema, DogValidationSchema])" ∧
      ∃ expression, draft.validator = expression.text "  " ∧
        MembersDiscriminable {} pets expression := by
  have text : ((drafts {} pets).1.get? "Pet").map (·.validator) =
      some "z.discriminatedUnion(\"kind\", [CatValidationSchema, DogValidationSchema])" := by
    unfold drafts
    rw [closures_pets]
    decide +kernel
  obtain ⟨draft, found, validator⟩ := Option.map_eq_some_iff.1 text
  obtain ⟨schema, expression, -, -, same, members⟩ :=
    members_are_discriminable {} pets distinctProperties_pets found
  exact ⟨distinctProperties_pets, draft, found, validator, expression, same, members⟩

end Pets

end ZodModules.Generation
