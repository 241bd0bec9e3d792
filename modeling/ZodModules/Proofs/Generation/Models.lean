import ZodModules.Generation.Output
import ZodModules.Proofs.Data.Listings
import ZodModules.Proofs.Generation.Roots
import ZodModules.Proofs.Model.Renaming

/-!
# Models of a run

Which schemas have a model, and what the model of a schema refers to. A schema has a model exactly
if all references within its reach are to registered names.
-/

namespace ZodModules.Generation

open Mapping

section Generated

variable {config : Config} {name : String} {schema : Schema} {registry : Registry}
  {closures : ClosureIndex} {generated : Generated}

/-- What the values of properties refer to. -/
theorem refers_threads {scope : Scope} {properties : List (Schema.Property Schema)}
    {before after : State} {values : List Mapped}
    (threads : Threads scope properties before values after) :
    Mapping.Refers scope (Schema.propertyRefs properties) before values after := by
  induction threads with
  | nil => exact ⟨.of_eq rfl, by simp, by simp⟩
  | cons first _ ih =>
    have own := refers_mapValue first
    rw [Schema.propertyRefs]
    refine ⟨?_, ?_, ?_⟩
    · exact (own.notes.mono fun _ member => List.mem_append_left _ member).trans
        (ih.notes.mono fun _ member => List.mem_append_right _ member)
    · intro value member symbol used
      rcases List.mem_cons.1 member with rfl | member
      · exact (own.symbols _ (List.mem_singleton_self _) symbol used).mono ih.notes.kept
      · exact ih.symbols value member symbol used
    · intro value member
      rcases List.mem_cons.1 member with rfl | member
      · exact own.classes _ (List.mem_singleton_self _)
      · exact ih.classes value member

@[simp] theorem symbols_propertyValidator (value : Mapped) (metadata : Schema.Metadata)
    (required : Bool) :
    (propertyValidator value metadata required).symbols = value.validator.symbols := by
  unfold propertyValidator
  cases metadata.default? <;> cases required <;> simp [Validator.symbols]

/-- A field of an object is that of one of its properties and what its value maps to. -/
theorem exists_of_mem_fields {indent : String} {required : NameSet}
    {properties : List (Schema.Property Schema)} {values : List Mapped}
    {field : Validator × Model.Property}
    (member : field ∈ List.zipWith (fieldOf indent required) properties values) :
    ∃ property ∈ properties, ∃ value ∈ values, fieldOf indent required property value = field := by
  rw [← List.map_uncurry_zip_eq_zipWith] at member
  obtain ⟨⟨property, value⟩, paired, rfl⟩ := List.mem_map.1 member
  obtain ⟨first, second⟩ := List.of_mem_zip paired
  exact ⟨property, first, value, second, rfl⟩

/-- What the expressions of a whole schema refer to. -/
structure RootRefers (scope : Scope) (schema : Schema) (root : Root) (state : State) : Prop where
  references : ∀ target ∈ state.references, target ∈ schema.refs ∧ target ≠ scope.owner
  symbols : ∀ symbol ∈ root.validator.symbols, Justified scope state symbol
  classes : ∀ property ∈ root.properties, Classed scope.registry property.shape
  isObject : root.isObject = isObject schema

theorem refers_generateRoot {scope : Scope} {indent : String} {root : Root} {state : State}
    (run : Yields (generateRoot scope indent schema) ∅ root state) :
    RootRefers scope schema root state := by
  have fresh {cited : List String} (notes : Notes scope cited ∅ state) :
      ∀ target ∈ state.references, target ∈ cited ∧ target ≠ scope.owner := by
    intro target member
    rcases notes.origin target member with impossible | noted
    · cases impossible
    · exact noted
  rcases generateRoot_cases run with
    ⟨properties, required, metadata, values, rfl, threads, rfl⟩ | ⟨value, mapped, mapping, rfl⟩
  · have refers := refers_threads threads
    refine ⟨?_, ?_, ?_, rfl⟩
    · rw [Schema.refs]
      exact fresh refers.notes
    · intro symbol used
      rw [objectRoot, Validator.symbols] at used
      obtain ⟨_, listed, used⟩ := Validator.mem_symbolsFields.1 used
      obtain ⟨field, member, rfl⟩ := List.mem_map.1 listed
      obtain ⟨property, -, mapped, present, rfl⟩ := exists_of_mem_fields member
      refine refers.symbols mapped present symbol ?_
      simpa [fieldOf] using used
    · intro property member
      obtain ⟨field, inside, rfl⟩ := List.mem_map.1 member
      obtain ⟨source, -, mapped, present, rfl⟩ := exists_of_mem_fields inside
      exact refers.classes mapped present
  · have refers := refers_mapValue mapping
    refine ⟨fresh refers.notes, ?_, by simp [valueRoot], ?_⟩
    · intro symbol used
      exact refers.symbols mapped (List.mem_singleton_self _) symbol used
    · exact (Bool.not_eq_true _ ▸ value : Mapping.isObject schema = false).symm

/-- What a generated model refers to. -/
structure ModelRefers (config : Config) (owner : String) (schema : Schema) (registry : Registry)
    (closures : ClosureIndex) (model : Model) : Prop where
  name : model.name = owner
  validatorName : model.validatorName = config.validatorName owner
  typeName : model.typeName = Naming.typeName owner
  isObject : model.isObject = isObject schema
  references : ∀ target ∈ model.references, target ∈ schema.refs ∧ target ≠ owner
  /-- The validator uses only the symbols of references that close no cycle. -/
  validator : ∃ expression, expression? config owner schema registry closures = some expression ∧
    model.validator = expression.text config.indent.text ∧
    ∀ symbol ∈ expression.symbols, ∃ target ∈ model.references, registry.contains target ∧
      ¬ closures.reaches target owner ∧ symbol = config.validatorName target
  classes : ∀ target ∈ model.dtoReferences,
    ∃ schema, registry.get? target = some schema ∧ Mapping.isObject schema

theorem refers_generate
    (ok : generate config name schema registry closures = .ok generated) :
    ModelRefers config name schema registry closures generated.model := by
  obtain ⟨root, state, run, rfl⟩ := generate_eq_ok_iff.1 ok
  have refers := refers_generateRoot run
  refine ⟨rfl, rfl, rfl, refers.isObject, refers.references,
    ⟨_, expression?_of_yields run, rfl, ?_⟩, ?_⟩
  · intro symbol used
    rw [rootValidator, Validator.symbols_orNull, Validator.symbols_describe?] at used
    obtain ⟨target, member, registered, opens, same⟩ := refers.symbols symbol used
    refine ⟨target, member, registered, ?_, same⟩
    intro reaches
    exact opens (by rw [Scope.closes, Bool.or_eq_true]; exact Or.inr reaches)
  · intro target member
    unfold Model.dtoReferences at member
    rw [List.mem_eraseDups, List.mem_filter, List.mem_filterMap] at member
    obtain ⟨⟨property, present, found⟩, -⟩ := member
    exact refers.classes property present target found

end Generated

section All

variable {config : Config} {registry : Registry}

/-- The model of a schema, unless the schema does not resolve or fails to be generated. -/
def modelFor (generator : Generator) (registry : Registry) (closures : ClosureIndex)
    (name : String) (schema : Schema) : Option Model :=
  match closures.closures.get? name with
  | some (.error _) => none
  | _ =>
    match generator.generate name schema registry closures with
    | .ok generated => some generated.model
    | .error _ => none

/-- One step of generating all models. -/
def generateEntry (generator : Generator) (registry : Registry) (closures : ClosureIndex)
    (state : NameMap Model × Report) (entry : String × Schema) : NameMap Model × Report :=
  match closures.closures.get? entry.1 with
  | some (.error e) => (state.1, state.2.record entry.1 (.resolution e))
  | _ =>
    match generator.generate entry.1 entry.2 registry closures with
    | .ok generated =>
      (state.1.insert entry.1 generated.model, state.2.recordAll entry.1 generated.diagnostics)
    | .error e => (state.1, state.2.record entry.1 (.resolution e))

theorem generateAll_eq_foldl (generator : Generator) (registry : Registry)
    (closures : ClosureIndex) :
    generateAll generator registry closures =
      registry.schemas.entries.foldl (generateEntry generator registry closures) (∅, ∅) := rfl

theorem get?_generateEntry {generator : Generator} {closures : ClosureIndex}
    {state : NameMap Model × Report} {entry : String × Schema} {name : String} :
    (generateEntry generator registry closures state entry).1.get? name =
      if name = entry.1 then
        (modelFor generator registry closures entry.1 entry.2).or (state.1.get? name)
      else state.1.get? name := by
  unfold generateEntry modelFor
  split
  · simp
  · split
    · rw [NameMap.get?_insert]
      rfl
    · simp

theorem get?_foldl_generateEntry {generator : Generator} {closures : ClosureIndex}
    {entries : List (String × Schema)} (nodup : (entries.map Prod.fst).Nodup)
    (state : NameMap Model × Report) (name : String) :
    (entries.foldl (generateEntry generator registry closures) state).1.get? name =
      ((entries.lookup name).bind (modelFor generator registry closures name)).or
        (state.1.get? name) := by
  induction entries generalizing state with
  | nil => rfl
  | cons entry rest ih =>
    obtain ⟨fresh, nodup⟩ := List.nodup_cons.1 nodup
    rw [List.foldl_cons, ih nodup, get?_generateEntry, List.lookup_cons]
    by_cases here : name = entry.1
    · have absent : rest.lookup name = none := Listing.lookup_eq_none (here ▸ fresh)
      rw [absent, if_pos here, here, beq_self_eq_true]
      rfl
    · have different : (name == entry.1) = false := by simpa using here
      simp [here, different]

theorem get?_generateAll {generator : Generator} {closures : ClosureIndex} {name : String} :
    (generateAll generator registry closures).1.get? name =
      (registry.get? name).bind (modelFor generator registry closures name) := by
  rw [generateAll_eq_foldl, get?_foldl_generateEntry registry.schemas.nodup_keys]
  exact Option.or_none

/-- What is generated for the schemas of a registry, before the exported names are made distinct. -/
def drafts (config : Config) (registry : Registry) : NameMap Model × Report :=
  generateAll (generator config) registry (ClosureIndex.ofRegistry registry)

theorem get?_drafts_iff {name : String} {model : Model} :
    (drafts config registry).1.get? name = some model ↔
      ∃ schema diagnostics, registry.get? name = some schema ∧ registry.Resolves name ∧
        generate config name schema registry (ClosureIndex.ofRegistry registry) =
          .ok ⟨model, diagnostics⟩ := by
  unfold drafts
  rw [get?_generateAll]
  cases found : registry.get? name with
  | none => simp
  | some schema =>
    have registered := Registry.contains_of_get? found
    have closed : (∃ reached, registry.closure name = .ok reached) ↔
        registry.contains name ∧ registry.Resolves name := Registry.closure_isOk_iff
    rw [Option.bind_some, modelFor, ClosureIndex.get?_ofRegistry, if_pos registered]
    cases closure : registry.closure name with
    | error e =>
      simp only [reduceCtorEq, false_iff]
      rintro ⟨_, _, -, resolves, -⟩
      obtain ⟨reached, ok⟩ := closed.2 ⟨registered, resolves⟩
      rw [closure] at ok
      cases ok
    | ok reached =>
      have resolves := (closed.1 ⟨reached, closure⟩).2
      show (match generate config name schema registry (ClosureIndex.ofRegistry registry) with
        | .ok generated => some generated.model
        | .error _ => none) = some model ↔ _
      cases result : generate config name schema registry (ClosureIndex.ofRegistry registry) with
      | error e => simp [result]
      | ok generated =>
        obtain ⟨model', diagnostics⟩ := generated
        simp [result, resolves]

/-- Each model is that of the expressions that a registered schema which resolves comes to. -/
theorem exists_yields_of_draft {name : String} {draft : Model}
    (found : (drafts config registry).1.get? name = some draft) :
    ∃ schema root state, registry.get? name = some schema ∧ registry.Resolves name ∧
      Yields (generateRoot (scopeOf config name registry (ClosureIndex.ofRegistry registry))
        config.indent.text schema) ∅ root state ∧
      draft = modelOf config name schema (ClosureIndex.ofRegistry registry) root state := by
  obtain ⟨schema, diagnostics, registered, resolves, ok⟩ := get?_drafts_iff.1 found
  obtain ⟨root, state, run, same⟩ := generate_eq_ok_iff.1 ok
  exact ⟨schema, root, state, registered, resolves, run, congrArg Generated.model same.symm⟩

/-- A schema has a model exactly if it is registered and resolves. -/
theorem exists_draft_iff (config : Config) {name : String} :
    (∃ model, (drafts config registry).1.get? name = some model) ↔
      registry.contains name ∧ registry.Resolves name := by
  constructor
  · rintro ⟨model, found⟩
    obtain ⟨schema, -, registered, resolves, -⟩ := get?_drafts_iff.1 found
    exact ⟨Registry.contains_of_get? registered, resolves⟩
  · rintro ⟨registered, resolves⟩
    obtain ⟨schema, found⟩ := Option.isSome_iff_exists.1 registered
    have cited : ∀ target ∈ schema.refs, registry.contains target := fun target member =>
      resolves name target .refl ⟨schema, found, member⟩
    obtain ⟨⟨model, diagnostics⟩, ok⟩ :=
      exists_generate config name (ClosureIndex.ofRegistry registry) cited
    exact ⟨model, get?_drafts_iff.2 ⟨schema, diagnostics, found, resolves, ok⟩⟩

end All

end ZodModules.Generation
