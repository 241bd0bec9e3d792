import ZodModules.Proofs.Expr.TaggedUnions
import ZodModules.Proofs.Generation.Diagnostics
import ZodModules.Proofs.Generation.DiscriminatedUnions

/-!
# Disjoint tags

A discriminated union is only of use if no two of its members share a tag, that is a value of the
property that is to tell them apart. Whether a union becomes discriminated is decided member by
member, so that they do not share one has to hold of the schemas.
-/

namespace ZodModules

open Mapping (Scope State Yields)

/-- The values by which a property of an object tells it apart. -/
def Schema.tags (property : String) (schema : Schema) : List String :=
  match schema.kind with
  | .object properties _ => properties.flatMap fun p =>
    match p.schema.kind with
    | .string facets => if p.name = property then facets.literals else []
    | _ => []
  | _ => []

namespace Generation

variable {config : Config} {registry : Registry} {name : String}

/-- A validator is declared for a schema of which a property has a tag. -/
def HasTag (config : Config) (registry : Registry) (property : String) (member : Validator)
    (tag : String) : Prop :=
  ∃ target schema, registry.get? target = some schema ∧
    member = .symbol (config.validatorName target) ∧ tag ∈ schema.tags property

/-- No two members of a union share a tag. -/
def DisjointTags (config : Config) (registry : Registry) (union : String × List Validator) : Prop :=
  union.2.Pairwise fun first second => ∀ tag, HasTag config registry union.1 first tag →
    ¬ HasTag config registry union.1 second tag

/-- No two members share a tag in any discriminated union that is generated. -/
def TagsDisjoint (config : Config) (registry : Registry) : Prop :=
  ∀ name draft, (drafts config registry).1.get? name = some draft →
    ∃ schema expression, registry.get? name = some schema ∧
      expression? config name schema registry (.ofRegistry registry) = some expression ∧
      draft.validator = expression.text config.indent.text ∧
      ∀ union ∈ expression.discriminatedUnions, DisjointTags config registry union

/-- No two schemas share a tag that are listed by a union which becomes a discriminated one. -/
def TargetsDisjoint (config : Config) (registry : Registry) : Prop :=
  ∀ name schema, registry.get? name = some schema → registry.Resolves name →
    ∀ part ∈ schema.rootParts, ∀ property targets,
      (scopeOf config name registry (.ofRegistry registry)).tagged? part.schema =
        some (property, targets) →
      DisjointTags config registry
        (property, targets.map fun target => .symbol (config.validatorName target))

section Unions

variable {scope : Scope} {indent : String} {required : NameSet}

/-- The discriminated unions of an object's fields are those of the values of its properties. -/
theorem unions_threads {properties : List (Schema.Property Schema)} {before after : State}
    {values : List Mapping.Mapped} (threads : Threads scope properties before values after)
    (index : Nat) :
    Validator.discriminatedUnionsFields
        ((List.zipWith (fieldOf indent required) properties values).map
          fun field => (field.2.name, field.1)) =
      scope.unions (Schema.propertyParts index properties) := by
  induction threads generalizing index with
  | nil => rfl
  | cons first _ ih =>
    rw [List.zipWith_cons_cons, List.map_cons, Validator.discriminatedUnionsFields, ih (index + 1),
      Schema.propertyParts, Mapping.unions_append, Mapping.unions_within,
      ← (Mapping.tags_rules.hold _ first).unions]
    simp [fieldOf]

/-- The discriminated unions in the expression of a schema come from its parts. -/
theorem unions_generateRoot {schema : Schema} {before after : State} {root : Root}
    (run : Yields (generateRoot scope indent schema) before root after) :
    (rootValidator schema root).discriminatedUnions = scope.unions schema.rootParts := by
  rw [rootValidator, Validator.discriminatedUnions_orNull, Validator.discriminatedUnions_describe?]
  rcases generateRoot_cases run with
    ⟨properties, required, metadata, values, rfl, threads, rfl⟩ | ⟨value, mapped, mapping, rfl⟩
  · exact unions_threads threads 0
  · rw [rootParts_of_value value]
    exact (Mapping.tags_rules.hold schema mapping).unions

theorem unions_of_expression {schema : Schema} {closures : ClosureIndex} {expression : Validator}
    (expressed : expression? config name schema registry closures = some expression) :
    expression.discriminatedUnions =
      (scopeOf config name registry closures).unions schema.rootParts := by
  unfold expression? at expressed
  split at expressed
  · rename_i run
    cases expressed
    exact unions_generateRoot run
  · cases expressed

end Unions

/-- No two members of a discriminated union share a tag exactly if no two of the schemas do that one
union lists of which each by itself qualifies as a member. -/
theorem tagsDisjoint_iff (config : Config) (registry : Registry) :
    TagsDisjoint config registry ↔ TargetsDisjoint config registry := by
  constructor
  · intro disjoint name schema registered resolves part member property targets tagged
    obtain ⟨draft, found⟩ :=
      (exists_draft_iff config).2 ⟨Registry.contains_of_get? registered, resolves⟩
    obtain ⟨schema', expression, registered', expressed, -, disjoint⟩ := disjoint name draft found
    obtain rfl : schema = schema' := Option.some.inj (registered.symm.trans registered')
    refine disjoint _ ?_
    rw [unions_of_expression expressed]
    refine List.mem_filterMap.2 ⟨part, member, ?_⟩
    rw [tagged]
    rfl
  · intro disjoint name draft found
    obtain ⟨schema, diagnostics, registered, resolves, ok⟩ := get?_drafts_iff.1 found
    obtain ⟨root, state, run, same⟩ := generate_eq_ok_iff.1 ok
    cases same
    have expressed := expression?_of_yields run
    refine ⟨schema, _, registered, expressed, rfl, ?_⟩
    intro union inside
    rw [unions_of_expression expressed] at inside
    obtain ⟨part, member, found⟩ := List.mem_filterMap.1 inside
    obtain ⟨⟨property, targets⟩, tagged, rfl⟩ := Option.map_eq_some_iff.1 found
    exact disjoint name schema registered resolves part member property targets tagged

section Strays

/-- Strays are cats or dogs, of which either may just be pets. -/
def strays : Registry :=
  let stray (kinds : List String) : Schema :=
    .ofKind (.object [⟨"kind", .ofKind (.string { literals := kinds })⟩] (.ofList ["kind"]))
  .ofList [("Cat", stray ["pet"]), ("Dog", stray ["pet", "hound"]),
    ("Stray", .ofKind (.oneOf [.ofKind (.ref "Cat"), .ofKind (.ref "Dog")] (some "kind")))]

theorem closures_strays :
    ClosureIndex.ofRegistry strays =
      ⟨NameMap.ofList [("Cat", .ok ∅), ("Dog", .ok ∅), ("Stray", .ok (.ofList ["Cat", "Dog"]))]⟩ := by
  have cat : strays.closure "Cat" = .ok ∅ := Registry.closure_of_refs_eq_nil rfl rfl
  have dog : strays.closure "Dog" = .ok ∅ := Registry.closure_of_refs_eq_nil rfl rfl
  have stray : strays.closure "Stray" = .ok (.ofList ["Cat", "Dog"]) := by
    show strays.search "Stray" ["Cat", "Dog", "Stray"] ∅ [("Stray", "Cat"), ("Stray", "Dog")] = _
    rw [Registry.search_of_fresh (by decide) rfl rfl (by decide)]
    show strays.search "Stray" _ _ [("Stray", "Dog")] = _
    rw [Registry.search_of_fresh (by decide) rfl rfl (by decide)]
    show strays.search "Stray" _ _ [] = _
    rw [Registry.search]
    exact congrArg Except.ok (by decide +kernel)
  show (⟨⟨[("Cat", strays.closure "Cat"), ("Dog", strays.closure "Dog"),
    ("Stray", strays.closure "Stray")], _⟩⟩ : ClosureIndex) = _
  simp only [cat, dog, stray]
  rfl

/-- Strays are generated as a discriminated union, though a pet may be a cat or a dog. -/
theorem not_tagsDisjoint_strays : ¬ TagsDisjoint {} strays := by
  intro disjoint
  obtain ⟨draft, found⟩ : ∃ draft, (drafts {} strays).1.get? "Stray" = some draft := by
    refine Option.isSome_iff_exists.1 ?_
    unfold drafts
    rw [closures_strays]
    decide +kernel
  obtain ⟨schema, expression, registered, expressed, -, disjoint⟩ := disjoint "Stray" draft found
  obtain rfl := Option.some.inj registered
  have tagged : (scopeOf {} "Stray" strays (.ofRegistry strays)).tagged?
      (.ofKind (.oneOf [.ofKind (.ref "Cat"), .ofKind (.ref "Dog")] (some "kind"))) =
        some ("kind", ["Cat", "Dog"]) := by
    rw [closures_strays]
    decide +kernel
  have inside : ("kind", [.symbol (Config.validatorName {} "Cat"),
      .symbol (Config.validatorName {} "Dog")]) ∈ expression.discriminatedUnions := by
    rw [unions_of_expression expressed]
    refine List.mem_filterMap.2 ⟨_, List.mem_cons_self, ?_⟩
    exact congrArg (Option.map _) tagged
  have apart := List.rel_of_pairwise_cons (disjoint _ inside) (List.mem_singleton_self _)
  refine apart "pet" ⟨"Cat", _, rfl, rfl, ?_⟩ ⟨"Dog", _, rfl, rfl, ?_⟩
  · exact List.mem_cons_self
  · exact List.mem_cons_self

end Strays

end Generation

end ZodModules
