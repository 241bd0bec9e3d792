import ZodModules.Generation.Generator
import ZodModules.Proofs.Expr.MappingReferences

/-!
# Generated models

How the model of a whole schema comes about: an object maps its properties one after the other, any
other schema is mapped as a value, and nothing but an unregistered reference makes that fail.
-/

namespace ZodModules.Generation

open Mapping

variable {scope : Scope} {indent : String} {required : NameSet}

/-- The field of a property whose value is mapped, and what is decided about the property. -/
def fieldOf (indent : String) (required : NameSet) (property : Schema.Property Schema)
    (value : Mapped) : Validator × Model.Property :=
  let metadata := property.schema.metadata
  let isRequired := required.contains property.name
  let validator := propertyValidator value metadata isRequired
  (validator, {
    name := property.name
    validator := validator.text indent
    type := value.type.text
    required := isRequired
    nullable := value.nullable
    shape := value.shape
    description := metadata.description
    example? := metadata.example? })

/-- The values of some properties are mapped one after the other. -/
inductive Threads (scope : Scope) :
    List (Schema.Property Schema) → State → List Mapped → State → Prop where
  | nil {before : State} : Threads scope [] before [] before
  | cons {property : Schema.Property Schema} {rest : List (Schema.Property Schema)}
      {before middle after : State} {value : Mapped} {values : List Mapped}
      (first : Yields (mapValue scope property.schema property.name property.name) before value
        middle)
      (others : Threads scope rest middle values after) :
      Threads scope (property :: rest) before (value :: values) after

/-- Each field is that of a property and of a value that is mapped from it. -/
theorem Threads.exists_yields_of_mem_fields {scope : Scope}
    {properties : List (Schema.Property Schema)} {before after : State} {values : List Mapped}
    (threads : Threads scope properties before values after) {field : Validator × Model.Property}
    (member : field ∈ List.zipWith (fieldOf indent required) properties values) :
    ∃ property ∈ properties, ∃ value first last,
      Yields (mapValue scope property.schema property.name property.name) first value last ∧
        fieldOf indent required property value = field := by
  induction threads with
  | nil => exact absurd member List.not_mem_nil
  | cons first _ ih =>
    rcases List.mem_cons.1 member with rfl | later
    · exact ⟨_, List.mem_cons_self, _, _, _, first, rfl⟩
    · obtain ⟨property, inside, rest⟩ := ih later
      exact ⟨property, List.mem_cons_of_mem _ inside, rest⟩

/-- Each property has its field. -/
theorem Threads.exists_field {scope : Scope} {properties : List (Schema.Property Schema)}
    {before after : State} {values : List Mapped}
    (threads : Threads scope properties before values after) (indent : String) (required : NameSet)
    {property : Schema.Property Schema} (member : property ∈ properties) :
    ∃ value ∈ values, fieldOf indent required property value ∈
      List.zipWith (fieldOf indent required) properties values := by
  induction threads with
  | nil => exact absurd member List.not_mem_nil
  | cons _ _ ih =>
    rcases List.mem_cons.1 member with rfl | later
    · exact ⟨_, List.mem_cons_self, List.mem_cons_self⟩
    · obtain ⟨value, inside, field⟩ := ih later
      exact ⟨value, List.mem_cons_of_mem _ inside, List.mem_cons_of_mem _ field⟩

theorem yields_generateProperty {property : Schema.Property Schema} {before after : State}
    {field : Validator × Model.Property} :
    Yields (generateProperty scope indent required property) before field after ↔
      ∃ value, Yields (mapValue scope property.schema property.name property.name) before value
        after ∧ fieldOf indent required property value = field := by
  unfold generateProperty
  rw [yields_bind]
  constructor
  · rintro ⟨value, middle, run, returned⟩
    obtain ⟨rfl, rfl⟩ := yields_pure.1 returned
    exact ⟨value, run, rfl⟩
  · rintro ⟨value, run, rfl⟩
    exact ⟨value, after, run, yields_pure.2 ⟨rfl, rfl⟩⟩

theorem yields_properties {properties : List (Schema.Property Schema)} {before after : State}
    {fields : List (Validator × Model.Property)} :
    Yields (properties.mapM (generateProperty scope indent required)) before fields after ↔
      ∃ values, Threads scope properties before values after ∧
        List.zipWith (fieldOf indent required) properties values = fields := by
  induction properties generalizing before fields with
  | nil =>
    rw [List.mapM_nil, yields_pure]
    constructor
    · rintro ⟨rfl, rfl⟩
      exact ⟨[], .nil, rfl⟩
    · rintro ⟨values, threads, rfl⟩
      cases threads
      exact ⟨rfl, rfl⟩
  | cons property rest ih =>
    rw [List.mapM_cons, yields_bind]
    constructor
    · rintro ⟨field, middle, first, others⟩
      obtain ⟨value, mapped, rfl⟩ := yields_generateProperty.1 first
      obtain ⟨fields', last, later, returned⟩ := yields_bind.1 others
      obtain ⟨rfl, rfl⟩ := yields_pure.1 returned
      obtain ⟨values, threads, rfl⟩ := ih.1 later
      exact ⟨value :: values, .cons mapped threads, rfl⟩
    · rintro ⟨values, threads, rfl⟩
      cases threads with
      | cons first others =>
        refine ⟨_, _, yields_generateProperty.2 ⟨_, first, rfl⟩, yields_bind.2 ?_⟩
        exact ⟨_, _, ih.2 ⟨_, others, rfl⟩, yields_pure.2 ⟨rfl, rfl⟩⟩

/-- The expressions of an object with some fields. -/
def objectRoot (indent : String) (metadata : Schema.Metadata)
    (fields : List (Validator × Model.Property)) : Root where
  validator := .object (fields.map fun field => (field.2.name, field.1))
  type := objectType indent (fields.map Prod.snd)
  nullable := metadata.nullable
  properties := fields.map Prod.snd
  isObject := true

/-- The expressions of a schema that is mapped as a value. -/
def valueRoot (value : Mapped) : Root where
  validator := value.validator
  type := value.type.text
  nullable := value.nullable
  properties := []
  isObject := false

theorem yields_objectRoot {properties : List (Schema.Property Schema)}
    {metadata : Schema.Metadata} {before after : State} {root : Root} :
    Yields (generateRoot scope indent ⟨.object properties required, metadata⟩) before root after ↔
      ∃ values, Threads scope properties before values after ∧
        objectRoot indent metadata (List.zipWith (fieldOf indent required) properties values) =
          root := by
  unfold generateRoot
  show Yields (properties.mapM (generateProperty scope indent required) >>= _) before root after ↔ _
  rw [yields_bind]
  constructor
  · rintro ⟨fields, middle, run, returned⟩
    obtain ⟨rfl, rfl⟩ := yields_pure.1 returned
    obtain ⟨values, threads, rfl⟩ := yields_properties.1 run
    exact ⟨values, threads, rfl⟩
  · rintro ⟨values, threads, rfl⟩
    exact ⟨_, after, yields_properties.2 ⟨values, threads, rfl⟩, yields_pure.2 ⟨rfl, rfl⟩⟩

/-- A schema is that of objects with properties, or is mapped as a value. -/
theorem object_or_value (schema : Schema) :
    (∃ properties required metadata, schema = ⟨.object properties required, metadata⟩) ∨
      ¬ isObject schema := by
  obtain ⟨kind, metadata⟩ := schema
  cases kind with
  | object properties required => exact Or.inl ⟨properties, required, metadata, rfl⟩
  | _ => exact Or.inr Bool.false_ne_true

theorem generateRoot_of_value {schema : Schema} (value : ¬ isObject schema) :
    generateRoot scope indent schema =
      (do return valueRoot (← mapValue scope schema "" "")) := by
  obtain ⟨kind, metadata⟩ := schema
  cases kind with
  | object properties required => exact absurd rfl value
  | _ => rfl

theorem yields_valueRoot {schema : Schema} (value : ¬ isObject schema) {before after : State}
    {root : Root} :
    Yields (generateRoot scope indent schema) before root after ↔
      ∃ mapped, Yields (mapValue scope schema "" "") before mapped after ∧
        valueRoot mapped = root := by
  rw [generateRoot_of_value value, yields_bind]
  constructor
  · rintro ⟨mapped, middle, run, returned⟩
    obtain ⟨rfl, rfl⟩ := yields_pure.1 returned
    exact ⟨mapped, run, rfl⟩
  · rintro ⟨mapped, run, rfl⟩
    exact ⟨mapped, after, run, yields_pure.2 ⟨rfl, rfl⟩⟩

/-- What a whole schema comes to: the object of what its properties map to one after the other, or
what it maps to as a value. -/
theorem generateRoot_cases {schema : Schema} {before after : State} {root : Root}
    (run : Yields (generateRoot scope indent schema) before root after) :
    (∃ properties required metadata values, schema = ⟨.object properties required, metadata⟩ ∧
      Threads scope properties before values after ∧
        root = objectRoot indent metadata
          (List.zipWith (fieldOf indent required) properties values)) ∨
      ¬ isObject schema ∧ ∃ value, Yields (mapValue scope schema "" "") before value after ∧
        root = valueRoot value := by
  rcases object_or_value schema with ⟨properties, required, metadata, rfl⟩ | value
  · obtain ⟨values, threads, rfl⟩ := yields_objectRoot.1 run
    exact Or.inl ⟨properties, required, metadata, values, rfl, threads, rfl⟩
  · obtain ⟨mapped, mapping, rfl⟩ := (yields_valueRoot value).1 run
    exact Or.inr ⟨value, mapped, mapping, rfl⟩

/-- Properties fail to be generated only at a reference to an unregistered name. -/
theorem refs_of_properties_fails {properties : List (Schema.Property Schema)} {before : State}
    {e : ResolutionError}
    (h : Fails (properties.mapM (generateProperty scope indent required)) before e) :
    e.schema = scope.owner ∧ e.reference ∈ Schema.propertyRefs properties ∧
      ¬ scope.registry.contains e.reference := by
  induction properties generalizing before with
  | nil =>
    rw [List.mapM_nil] at h
    exact absurd h not_fails_pure
  | cons property rest ih =>
    rw [List.mapM_cons] at h
    rw [Schema.propertyRefs, List.mem_append]
    rcases fails_bind.1 h with first | ⟨field, middle, -, others⟩
    · unfold generateProperty at first
      rcases fails_bind.1 first with mapped | ⟨value, last, -, returned⟩
      · obtain ⟨owner, cited, missing⟩ := refs_of_mapValue_fails property.schema mapped
        exact ⟨owner, Or.inl cited, missing⟩
      · exact absurd returned not_fails_pure
    · rcases fails_bind.1 others with others | ⟨fields, last, -, returned⟩
      · obtain ⟨owner, cited, missing⟩ := ih others
        exact ⟨owner, Or.inr cited, missing⟩
      · exact absurd returned not_fails_pure

theorem refs_of_generateRoot_fails {schema : Schema} {before : State} {e : ResolutionError}
    (h : Fails (generateRoot scope indent schema) before e) :
    e.schema = scope.owner ∧ e.reference ∈ schema.refs ∧ ¬ scope.registry.contains e.reference := by
  rcases object_or_value schema with ⟨properties, required, metadata, rfl⟩ | value
  · rcases fails_bind.1 h with run | ⟨fields, middle, -, returned⟩
    · rw [Schema.refs]
      exact refs_of_properties_fails run
    · exact absurd returned not_fails_pure
  · rw [generateRoot_of_value value] at h
    rcases fails_bind.1 h with run | ⟨mapped, middle, -, returned⟩
    · exact refs_of_mapValue_fails schema run
    · exact absurd returned not_fails_pure

section Generate

variable {config : Config} {name : String} {schema : Schema} {registry : Registry}
  {closures : ClosureIndex}

theorem generate_of_yields {root : Root} {state : State}
    (run : Yields (generateRoot (scopeOf config name registry closures) config.indent.text schema) ∅
      root state) :
    generate config name schema registry closures =
      .ok ⟨modelOf config name schema closures root state, state.diagnostics⟩ := by
  have result : ExceptT.run
      (generateRoot (scopeOf config name registry closures) config.indent.text schema) ∅ =
        (.ok root, state) := run
  unfold generate
  simp only [result]

theorem generate_of_fails {e : ResolutionError}
    (failed : Fails (generateRoot (scopeOf config name registry closures) config.indent.text schema)
      ∅ e) :
    generate config name schema registry closures = .error e := by
  have result : (ExceptT.run
      (generateRoot (scopeOf config name registry closures) config.indent.text schema) ∅).1 =
        .error e := failed
  simp only [generate]
  split
  · rename_i same
    rw [same] at result
    cases result
    rfl
  · rename_i same
    rw [same] at result
    cases result

theorem generate_eq_ok_iff {generated : Generated} :
    generate config name schema registry closures = .ok generated ↔
      ∃ root state,
        Yields (generateRoot (scopeOf config name registry closures) config.indent.text schema) ∅
          root state ∧
        ⟨modelOf config name schema closures root state, state.diagnostics⟩ = generated := by
  constructor
  · intro ok
    rcases yields_or_fails
        (generateRoot (scopeOf config name registry closures) config.indent.text schema) ∅ with
      ⟨root, state, run⟩ | ⟨e, failed⟩
    · rw [generate_of_yields run] at ok
      cases ok
      exact ⟨root, state, run, rfl⟩
    · rw [generate_of_fails failed] at ok
      cases ok
  · rintro ⟨root, state, run, rfl⟩
    exact generate_of_yields run

/-- The validator expression of a whole schema with its description and whether it may be `null`. -/
def rootValidator (schema : Schema) (root : Root) : Validator :=
  (root.validator.describe? schema.metadata.description).orNull root.nullable

/-- The validator expression that is generated for a schema. -/
def expression? (config : Config) (name : String) (schema : Schema) (registry : Registry)
    (closures : ClosureIndex) : Option Validator :=
  match outcome (generateRoot (scopeOf config name registry closures) config.indent.text schema) ∅
  with
  | (.ok root, _) => some (rootValidator schema root)
  | (.error _, _) => none

theorem expression?_of_yields {root : Root} {state : State}
    (run : Yields (generateRoot (scopeOf config name registry closures) config.indent.text schema) ∅
      root state) :
    expression? config name schema registry closures = some (rootValidator schema root) := by
  unfold Yields at run
  rw [expression?, run]

/-- A schema whose references are all registered is generated. -/
theorem exists_generate (config : Config) (name : String) (closures : ClosureIndex)
    (resolved : ∀ target ∈ schema.refs, registry.contains target) :
    ∃ generated, generate config name schema registry closures = .ok generated := by
  rcases yields_or_fails
      (generateRoot (scopeOf config name registry closures) config.indent.text schema) ∅ with
    ⟨root, state, run⟩ | ⟨e, failed⟩
  · exact ⟨_, generate_eq_ok_iff.2 ⟨root, state, run, rfl⟩⟩
  · obtain ⟨-, cited, missing⟩ := refs_of_generateRoot_fails failed
    exact absurd (resolved _ cited) missing

end Generate

end ZodModules.Generation
