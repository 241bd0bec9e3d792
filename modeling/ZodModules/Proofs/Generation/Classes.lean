import ZodModules.Proofs.Generation.Modules

/-!
# Classes that decorators name

The decorators of a model name classes of schemas that its own schema refers to, and only of others
than itself.
-/

namespace ZodModules

namespace Mapping

variable {scope : Scope}

/-- The schema whose class a shape names is among those cited. -/
def ClassCited (cited : List String) (shape : Shape) : Prop :=
  ∀ target, Model.dtoTarget? shape = some target → target ∈ cited

theorem classCited_of_none {cited : List String} {shape : Shape}
    (noTarget : Model.dtoTarget? shape = none) : ClassCited cited shape := by
  intro target found
  rw [noTarget] at found
  cases found

theorem classCited_mapString {cited : List String} {facets : Schema.StringFacets} {hint : String}
    {before after : State} {value : Mapped}
    (h : Yields (mapString scope facets hint) before value after) :
    ClassCited cited value.shape := by
  rcases yields_mapString h with ⟨-, -, rfl⟩ | ⟨literal, -, -, rfl⟩ | ⟨-, -, rfl⟩
  · exact classCited_of_none rfl
  · exact classCited_of_none rfl
  · exact classCited_of_none rfl

/-- A union names a class only if it has just one member. -/
theorem classCited_unionOf {cited : List String} {values : List Mapped}
    {discriminator : Option String} (h : ∀ value ∈ values, ClassCited cited value.shape) :
    ClassCited cited (unionOf scope discriminator values).shape := by
  rcases values with _ | ⟨first, _ | ⟨second, rest⟩⟩
  · exact classCited_of_none rfl
  · exact h first List.mem_cons_self
  · exact classCited_of_none rfl

/-- The classes that the shape of a value names, kind by kind. -/
theorem classCited_rules : Rules scope
    (fun schema _ _ _ value _ => ClassCited schema.refs value.shape)
    (fun _ _ _ _ branches _ values _ =>
      ∀ value ∈ values, ClassCited (Schema.branchRefs branches) value.shape) where
  string run target found := classCited_mapString run target found
  number := classCited_of_none rfl
  boolean := classCited_of_none rfl
  null := classCited_of_none rfl
  emptyObject := classCited_of_none rfl
  dictionary _ _ _ := classCited_of_none rfl
  literalObject _ := classCited_of_none rfl
  record _ _ := classCited_of_none rfl
  untypedArray := classCited_of_none rfl
  array _ ih := ih
  oneOf _ ih := classCited_unionOf ih
  ref := by
    intro target schema metadata hint path before _ other found
    rw [Schema.refs, List.mem_singleton]
    cases object : isObject schema with
    | false => simp [Mapped.orNull, referenceValue, Model.dtoTarget?, object] at found
    | true =>
      simp only [Mapped.orNull, referenceValue, Model.dtoTarget?, object,
        Option.some.injEq] at found
      exact found.symm
  done := by simp
  skip _ ih := by
    intro value member target found
    exact List.mem_append_right _ (ih value member target found)
  next _ _ first rest := by
    intro value member target found
    rcases List.mem_cons.1 member with rfl | member
    · exact List.mem_append_left _ (first target found)
    · exact List.mem_append_right _ (rest value member target found)

end Mapping

namespace Generation

open Mapping

/-- The classes that the values of properties name. -/
theorem classCited_threads {scope : Scope} {properties : List (Schema.Property Schema)}
    {before after : State} {values : List Mapped}
    (threads : Threads scope properties before values after) :
    ∀ value ∈ values, ClassCited (Schema.propertyRefs properties) value.shape := by
  induction threads with
  | nil => simp
  | cons first _ ih =>
    intro value member target found
    rw [Schema.propertyRefs, List.mem_append]
    rcases List.mem_cons.1 member with rfl | member
    · exact Or.inl (classCited_rules.hold _ first target found)
    · exact Or.inr (ih value member target found)

theorem classCited_generateRoot {scope : Scope} {indent : String} {schema : Schema} {root : Root}
    {state : State} (run : Yields (generateRoot scope indent schema) ∅ root state) :
    ∀ property ∈ root.properties, ClassCited schema.refs property.shape := by
  rcases generateRoot_cases run with
    ⟨properties, required, metadata, values, rfl, threads, rfl⟩ | ⟨-, mapped, -, rfl⟩
  · intro property member
    obtain ⟨field, inside, rfl⟩ := List.mem_map.1 member
    obtain ⟨source, -, mapped, present, rfl⟩ := exists_of_mem_fields inside
    rw [Schema.refs]
    exact classCited_threads threads mapped present
  · simp [valueRoot]

variable {config : Config} {registry : Registry}

/-- The decorators of a model name classes of schemas that its schema refers to. -/
theorem refers_of_mem_dtoReferences {name target : String} {model : Model}
    (found : (finals config registry).get? name = some model)
    (cited : target ∈ model.dtoReferences) : registry.Refers name target := by
  obtain ⟨draft, drafted, rfl⟩ := get?_finals_iff.1 found
  obtain ⟨schema, root, state, registered, -, run, rfl⟩ := exists_yields_of_draft drafted
  rw [Model.dtoReferences_rename] at cited
  unfold Model.dtoReferences at cited
  rw [List.mem_eraseDups, List.mem_filter, List.mem_filterMap] at cited
  obtain ⟨⟨property, present, named⟩, -⟩ := cited
  exact ⟨schema, registered, classCited_generateRoot run property present target named⟩

end Generation

end ZodModules
