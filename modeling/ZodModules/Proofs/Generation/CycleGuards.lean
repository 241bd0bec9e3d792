import ZodModules.Proofs.Expr.Placeholders
import ZodModules.Proofs.Generation.Roots
import ZodModules.Proofs.Registry.Reachability

/-!
# Placeholders break all cycles

While a schema is generated, a reference becomes a placeholder exactly if it is to the schema itself
or to one whose closure the schema belongs to. So a model is recursive exactly if its schema reaches
itself, and no chain of schemas that use each other's symbols comes back to where it started.
-/

namespace ZodModules

open Relation (TransGen ReflTransGen)

namespace Registry

variable {registry : Registry} {source target : String}

/-- A reference to a schema closes a cycle: it is to the schema that makes it, or to one whose
closure holds that schema. -/
def ClosesCycle (registry : Registry) (source target : String) : Prop :=
  target = source ∨ ∃ reached, registry.closure target = .ok reached ∧ source ∈ reached

instance : Decidable (registry.ClosesCycle source target) :=
  match closure : registry.closure target with
  | .ok reached => decidable_of_iff (target = source ∨ source ∈ reached) (by
      simp [ClosesCycle, closure])
  | .error _ => decidable_of_iff (target = source) (by simp [ClosesCycle, closure])

theorem reaches_of_closesCycle (refers : registry.Refers source target)
    (closes : registry.ClosesCycle source target) : registry.Reaches source source := by
  rcases closes with rfl | ⟨reached, closure, member⟩
  · exact .single refers
  · exact .head refers ((mem_closure_iff closure).1 member)

end Registry

namespace Generation

open Mapping

variable {config : Config} {registry : Registry} {name : String} {schema : Schema}

@[simp] theorem base_propertyValidator (value : Mapped) (metadata : Schema.Metadata)
    (required : Bool) :
    (propertyValidator value metadata required).base = value.validator.base := by
  unfold propertyValidator
  cases metadata.default? <;> cases required <;> simp [Validator.base]

/-- What is mapped and reported for the properties of an object. -/
theorem guards_threads {scope : Scope} {indent : String} {required : NameSet}
    {properties : List (Schema.Property Schema)} {before after : State} {values : List Mapped}
    (threads : Threads scope properties before values after) :
    Guards scope (properties.flatMap (·.schema.mappedRefs))
      ((properties.zip ((List.zipWith (fieldOf indent required) properties values).map
        fun field => (field.2.name, field.1))).flatMap fun pair => pair.1.schema.places pair.2.2)
      before after := by
  induction threads with
  | nil => exact .nothing rfl rfl rfl
  | @cons property rest before middle after value values first others ih =>
    have own : Guards scope property.schema.mappedRefs
        (property.schema.places (fieldOf indent required property value).1) before middle := by
      have same : property.schema.places (fieldOf indent required property value).1 =
          property.schema.places value.validator :=
        Schema.places_congr (by simp [fieldOf]) property.schema
      rw [same]
      exact guards_rules.hold property.schema first
    have both := own.append ih
    simpa using both

/-- What is mapped and reported for a whole schema. -/
theorem guards_generateRoot {scope : Scope} {indent : String} {root : Root} {state : State}
    (run : Yields (generateRoot scope indent schema) ∅ root state) :
    Guards scope schema.rootMappedRefs (schema.rootPlaces (rootValidator schema root)) ∅ state := by
  rcases generateRoot_cases run with
    ⟨properties, required, metadata, values, rfl, threads, rfl⟩ | ⟨value, mapped, mapping, rfl⟩
  · have guards := @guards_threads scope indent required properties ∅ state values threads
    simpa [Schema.rootMappedRefs, Schema.rootPlaces, rootValidator, objectRoot, Validator.base]
      using guards
  · have guards := guards_rules.hold schema mapping
    have same : schema.places (rootValidator schema (valueRoot mapped)) =
        schema.places mapped.validator :=
      Schema.places_congr (by simp [rootValidator, valueRoot]) schema
    rw [← same] at guards
    obtain ⟨kind, metadata⟩ := schema
    cases kind with
    | object properties required => exact absurd rfl value
    | _ => exact guards

section Generate

theorem closes_scopeOf {target : String} :
    (scopeOf config name registry (.ofRegistry registry)).closes target ↔
      registry.ClosesCycle name target := by
  unfold Scope.closes Registry.ClosesCycle
  rw [Bool.or_eq_true, beq_iff_eq]
  apply or_congr_right
  show (ClosureIndex.ofRegistry registry).reaches target name ↔ _
  unfold ClosureIndex.reaches
  rw [Option.any_eq_true]
  simp only [ClosureIndex.closure?_eq_some_iff]
  simp [NameSet.contains]

theorem filter_closes_scopeOf (targets : List String) :
    targets.filter (scopeOf config name registry (.ofRegistry registry)).closes =
      targets.filter fun target => registry.ClosesCycle name target := by
  apply List.filter_congr
  intro target _
  rw [Bool.eq_iff_iff, decide_eq_true_iff]
  exact closes_scopeOf

/-- How the references of a schema are generated: what stands in their places in the expression,
which of them the model notes, what is reported of them and what the model says about it. -/
structure GuardsCycles (config : Config) (registry : Registry) (name : String) (schema : Schema)
    (reached : NameSet) (generated : Generated) (expression : Validator) : Prop where
  text : generated.model.validator = expression.text config.indent.text
  places : schema.rootPlaces expression = schema.rootMappedRefs.map fun target =>
    (target, if registry.ClosesCycle name target then .any
      else .symbol (config.validatorName target))
  references : ∀ target,
    target ∈ generated.model.references ↔ target ∈ schema.rootMappedRefs ∧ target ≠ name
  reported : generated.diagnostics.filterMap Diagnostic.recursion? =
    (schema.rootMappedRefs.filter fun target => registry.ClosesCycle name target).map
      fun target => (name, target)
  recursive : generated.model.isRecursive ↔ name ∈ reached
  explicit : generated.model.isRecursive → generated.model.isExplicit

theorem refers_of_mem_rootMappedRefs {target : String} (registered : registry.get? name = some schema)
    (mapped : target ∈ schema.rootMappedRefs) : registry.Refers name target :=
  ⟨schema, registered, Schema.mem_refs_of_mem_rootMappedRefs mapped⟩

/-- A model is recursive exactly if its schema reaches itself. -/
theorem isRecursive_modelOf_iff {root : Root} {state : State} {reached : NameSet}
    (registered : registry.get? name = some schema) (closure : registry.closure name = .ok reached)
    (guards : Guards (scopeOf config name registry (.ofRegistry registry)) schema.rootMappedRefs
      (schema.rootPlaces (rootValidator schema root)) ∅ state) :
    (modelOf config name schema (.ofRegistry registry) root state).isRecursive ↔ name ∈ reached := by
  show (state.recursive || (ClosureIndex.ofRegistry registry).isRecursive name) = true ↔ _
  rw [Bool.or_eq_true, ClosureIndex.isRecursive_ofRegistry_iff closure, guards.recursive]
  constructor
  · rintro (noted | member)
    · have noted : schema.rootMappedRefs.any
          (scopeOf config name registry (.ofRegistry registry)).closes = true := by
        simpa using noted
      obtain ⟨target, mapped, closes⟩ := List.any_eq_true.1 noted
      have refers := refers_of_mem_rootMappedRefs registered mapped
      exact (Registry.mem_closure_iff closure).2
        (Registry.reaches_of_closesCycle refers (closes_scopeOf.1 closes))
    · exact member
  · exact Or.inr

theorem isExplicit_modelOf {closures : ClosureIndex} {root : Root} {state : State}
    (recursive : (modelOf config name schema closures root state).isRecursive) :
    (modelOf config name schema closures root state).isExplicit := by
  change (state.recursive || closures.isRecursive name) = true at recursive
  have typing : (modelOf config name schema closures root state).typing =
      .explicit (Model.nullableType root.type root.nullable) := by
    simp [modelOf, recursive]
  unfold Model.isExplicit
  rw [typing]

theorem inferred_modelOf {closures : ClosureIndex} {root : Root} {state : State}
    (inferred : ¬ config.explicitTyping)
    (acyclic : ¬ (modelOf config name schema closures root state).isRecursive) :
    (modelOf config name schema closures root state).typing = .inferred := by
  change ¬ (state.recursive || closures.isRecursive name) = true at acyclic
  have neither : ¬ (config.explicitTyping || (state.recursive || closures.isRecursive name)) =
      true := by
    rw [Bool.or_eq_true]
    exact not_or.2 ⟨inferred, acyclic⟩
  exact if_neg neither

/-- A schema whose closure resolves is generated with placeholders for just the references that
close cycles. -/
theorem guardsCycles_generate {reached : NameSet}
    (registered : registry.get? name = some schema)
    (closure : registry.closure name = .ok reached) :
    ∃ generated expression,
      generate config name schema registry (.ofRegistry registry) = .ok generated ∧
        expression? config name schema registry (.ofRegistry registry) = some expression ∧
        GuardsCycles config registry name schema reached generated expression := by
  obtain ⟨-, resolves⟩ := Registry.resolves_of_closure closure
  have cited : ∀ target ∈ schema.refs, registry.contains target := fun target member =>
    resolves name target .refl ⟨schema, registered, member⟩
  obtain ⟨generated, ok⟩ :=
    exists_generate config name (ClosureIndex.ofRegistry registry) cited
  obtain ⟨root, state, run, rfl⟩ := generate_eq_ok_iff.1 ok
  have guards := guards_generateRoot run
  have recursive := isRecursive_modelOf_iff registered closure guards
  refine ⟨_, _, ok, expression?_of_yields run, rfl, ?_, ?_, ?_, recursive, ?_⟩
  · rw [guards.places_eq]
    apply List.map_congr_left
    intro target _
    simp only [Scope.placeOf, closes_scopeOf]
    rfl
  · intro target
    show target ∈ state.references ↔ _
    rw [guards.noted]
    have unnoted : target ∉ (∅ : State).references := List.not_mem_nil
    simp only [unnoted, false_or]
    rfl
  · show state.recursions = _
    rw [guards.reported]
    rw [filter_closes_scopeOf]
    rfl
  · exact isExplicit_modelOf

end Generate

/-- Generating a schema turns a reference to another one into the symbol of its validator. Schemas
whose closure does not resolve are not generated. -/
def UsesSymbol (config : Config) (registry : Registry) (source target : String) : Prop :=
  ∃ schema reached expression, registry.get? source = some schema ∧
    registry.closure source = .ok reached ∧
    expression? config source schema registry (.ofRegistry registry) = some expression ∧
    (target, .symbol (config.validatorName target)) ∈ schema.rootPlaces expression

/-- A schema whose symbol is used is referred to, and does not lead back. -/
theorem not_reaches_of_usesSymbol {source target : String}
    (uses : UsesSymbol config registry source target) :
    registry.Refers source target ∧ target ≠ source ∧ ¬ registry.Reaches target source := by
  obtain ⟨schema, reached, expression, registered, closure, expressed, used⟩ := uses
  obtain ⟨generated, other, -, same, guards⟩ := guardsCycles_generate registered closure
  rw [expressed] at same
  cases same
  rw [guards.places] at used
  obtain ⟨cited, mapped, place⟩ := List.mem_map.1 used
  obtain ⟨rfl, symbol⟩ := Prod.mk.inj place
  have opens : ¬ registry.ClosesCycle source cited := by
    intro closes
    rw [if_pos closes] at symbol
    cases symbol
  have refers := refers_of_mem_rootMappedRefs registered mapped
  refine ⟨refers, fun same => opens (Or.inl same), ?_⟩
  intro back
  obtain ⟨-, resolves⟩ := Registry.resolves_of_closure closure
  have reaches : registry.Reaches source cited := .single refers
  obtain ⟨beyond, ok⟩ := Registry.closure_isOk_iff.2
    ⟨resolves.contains reaches, resolves.of_reaches reaches⟩
  exact opens (Or.inr ⟨beyond, ok, (Registry.mem_closure_iff ok).2 back⟩)

/-- No chain of used symbols comes back to where it started: its first link would lead back. -/
theorem usesSymbol_acyclic (config : Config) (registry : Registry) (name : String) :
    ¬ TransGen (UsesSymbol config registry) name name := by
  intro cycle
  obtain ⟨next, uses, rest⟩ := TransGen.head'_iff.1 cycle
  obtain ⟨-, different, opens⟩ := not_reaches_of_usesSymbol uses
  have path : ReflTransGen registry.Refers next name :=
    ReflTransGen.mono (fun _ _ used => (not_reaches_of_usesSymbol used).1) _ _ rest
  rcases Relation.reflTransGen_iff_eq_or_transGen.1 path with same | reaches
  · exact different same.symm
  · exact opens reaches

/-- Placeholders break all cycles and nothing else. Every schema whose closure resolves is
generated; a reference of it that is mapped becomes a placeholder, and is reported, exactly if it is
to the schema itself or to one whose closure the schema belongs to, and the symbol of what it refers
to otherwise. The model is recursive exactly if the schema belongs to its own closure, its type is
then spelled out, and using symbols is a relation without cycles. -/
theorem placeholders_break_cycles (config : Config) (registry : Registry) :
    (∀ name schema reached, registry.get? name = some schema →
      registry.closure name = .ok reached →
        ∃ generated expression,
          generate config name schema registry (.ofRegistry registry) = .ok generated ∧
            expression? config name schema registry (.ofRegistry registry) = some expression ∧
            GuardsCycles config registry name schema reached generated expression) ∧
      ∀ name, ¬ TransGen (UsesSymbol config registry) name name := by
  constructor
  · intro name schema reached registered closure
    exact guardsCycles_generate registered closure
  · exact usesSymbol_acyclic config registry

section Bookshop

/-- Authors and their books refer to each other, and books have a price. -/
def bookshop : Registry :=
  .ofList [("Author", .ofKind (.object
      [⟨"books", .ofKind (.array (some (.ofKind (.ref "Book"))))⟩] ∅)),
    ("Book", .ofKind (.object
      [⟨"author", .ofKind (.ref "Author")⟩, ⟨"price", .ofKind (.ref "Price")⟩] ∅)),
    ("Price", .ofKind (.number {}))]

theorem closure_bookshop :
    bookshop.closure "Author" = .ok (.ofList ["Author", "Book", "Price"]) ∧
      bookshop.closure "Book" = .ok (.ofList ["Author", "Book", "Price"]) ∧
      bookshop.closure "Price" = .ok ∅ := by
  have author : bookshop.closure "Author" = .ok (.ofList ["Author", "Book", "Price"]) := by
    show bookshop.search "Author" ["Author", "Book", "Price"] ∅ [("Author", "Book")] = _
    rw [Registry.search_of_fresh (by decide) rfl rfl (by decide)]
    show bookshop.search "Author" _ _ [("Book", "Author"), ("Book", "Price")] = _
    rw [Registry.search, if_pos rfl, Registry.search_of_fresh (by decide) rfl rfl (by decide)]
    show bookshop.search "Author" _ _ [] = _
    rw [Registry.search]
    exact congrArg Except.ok (by decide +kernel)
  have book : bookshop.closure "Book" = .ok (.ofList ["Author", "Book", "Price"]) := by
    show bookshop.search "Book" ["Author", "Book", "Price"] ∅ [("Book", "Author"), ("Book", "Price")]
      = _
    rw [Registry.search_of_fresh (by decide) rfl rfl (by decide)]
    show bookshop.search "Book" _ _ [("Author", "Book"), ("Book", "Price")] = _
    rw [Registry.search, if_pos rfl, Registry.search_of_fresh (by decide) rfl rfl (by decide)]
    show bookshop.search "Book" _ _ [] = _
    rw [Registry.search]
    exact congrArg Except.ok (by decide +kernel)
  exact ⟨author, book, Registry.closure_of_refs_eq_nil rfl rfl⟩

/-- In the validator of a book the author is a placeholder and the price is not. -/
theorem places_book :
    ∃ schema generated expression, bookshop.get? "Book" = some schema ∧
      generate {} "Book" schema bookshop (.ofRegistry bookshop) = .ok generated ∧
      generated.model.validator = expression.text "  " ∧
      schema.rootPlaces expression =
        [("Author", .any), ("Price", .symbol "PriceValidationSchema")] ∧
      generated.diagnostics.filterMap Diagnostic.recursion? = [("Book", "Author")] ∧
      generated.model.isRecursive ∧ generated.model.isExplicit := by
  obtain ⟨author, book, price⟩ := closure_bookshop
  obtain ⟨generated, expression, ok, -, guards⟩ :=
    (placeholders_break_cycles {} bookshop).1 "Book" _ _ rfl book
  have closes : bookshop.ClosesCycle "Book" "Author" :=
    Or.inr ⟨_, author, by decide +kernel⟩
  have opens : ¬ bookshop.ClosesCycle "Book" "Price" := by
    rintro (same | ⟨reached, closure, member⟩)
    · exact absurd same (by decide)
    · rw [price] at closure
      cases closure
      exact NameSet.not_mem_empty _ member
  have recursive := guards.recursive.2 (by decide +kernel)
  refine ⟨_, generated, expression, rfl, ok, guards.text, ?_, ?_, recursive,
    guards.explicit recursive⟩
  · rw [guards.places]
    show [("Author", if bookshop.ClosesCycle "Book" "Author" then _ else _),
      ("Price", if bookshop.ClosesCycle "Book" "Price" then _ else _)] = _
    have named : Config.validatorName {} "Price" = "PriceValidationSchema" := by decide +kernel
    rw [if_pos closes, if_neg opens, named]
  · rw [guards.reported]
    show (["Author", "Price"].filter fun target => bookshop.ClosesCycle "Book" target).map _ = _
    simp [closes, opens]

end Bookshop

end Generation

end ZodModules
