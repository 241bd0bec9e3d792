import ZodModules.Model.Dto
import ZodModules.Proofs.Expr.MappingRuns
import ZodModules.Proofs.Registry.Reachability

/-!
# References of expressions

What a mapping refers to. It notes only references that the schema makes, it uses the symbol of a
reference only if the reference closes no cycle, and the schemas whose classes a shape names are
object schemas.
-/

namespace ZodModules.Validator

mutual

/-- The names of declared validators that an expression uses. -/
def symbols : Validator → List String
  | record value => value.symbols
  | array item => item.symbols
  | union members => symbolsAll members
  | discriminatedUnion _ members => symbolsAll members
  | object fields => symbolsFields fields
  | symbol name => [name]
  | nullable inner => inner.symbols
  | optional inner => inner.symbols
  | described inner _ => inner.symbols
  | defaulted inner _ => inner.symbols
  | any | string _ | literal _ | enum _ | number _ | boolean | null => []

/-- The names of declared validators that some expressions use. -/
def symbolsAll : List Validator → List String
  | [] => []
  | member :: members => member.symbols ++ symbolsAll members

/-- The names of declared validators that the expressions of some fields use. -/
def symbolsFields : List (String × Validator) → List String
  | [] => []
  | (_, value) :: fields => value.symbols ++ symbolsFields fields

end

theorem mem_symbolsAll {name : String} {members : List Validator} :
    name ∈ symbolsAll members ↔ ∃ member ∈ members, name ∈ member.symbols := by
  induction members with
  | nil => simp [symbolsAll]
  | cons member members ih => simp [symbolsAll, ih]

theorem mem_symbolsFields {name : String} {fields : List (String × Validator)} :
    name ∈ symbolsFields fields ↔ ∃ field ∈ fields, name ∈ field.2.symbols := by
  induction fields with
  | nil => simp [symbolsFields]
  | cons field fields ih => simp [symbolsFields, ih]

@[simp] theorem symbols_orNull (nullable : Bool) (validator : Validator) :
    (validator.orNull nullable).symbols = validator.symbols := by
  cases nullable <;> simp [orNull, symbols]

@[simp] theorem symbols_describe? (description : Option String) (validator : Validator) :
    (validator.describe? description).symbols = validator.symbols := by
  cases description <;> simp [describe?, symbols]

end ZodModules.Validator

namespace ZodModules.Mapping

variable {scope : Scope}

/-- From one state to another only references among those cited were noted, and not the owner. -/
structure Notes (scope : Scope) (cited : List String) (before after : State) : Prop where
  kept : ∀ target ∈ before.references, target ∈ after.references
  origin : ∀ target ∈ after.references,
    target ∈ before.references ∨ target ∈ cited ∧ target ≠ scope.owner

namespace Notes

theorem of_eq {cited : List String} {before after : State}
    (same : after.references = before.references) : Notes scope cited before after where
  kept _ member := same ▸ member
  origin _ member := Or.inl (same ▸ member)

theorem trans {cited : List String} {before middle after : State}
    (first : Notes scope cited before middle) (second : Notes scope cited middle after) :
    Notes scope cited before after where
  kept target member := second.kept target (first.kept target member)
  origin target member := by
    rcases second.origin target member with earlier | new
    · exact first.origin target earlier
    · exact Or.inr new

theorem mono {cited more : List String} {before after : State} (sub : ∀ t ∈ cited, t ∈ more)
    (notes : Notes scope cited before after) : Notes scope more before after where
  kept := notes.kept
  origin target member := by
    rcases notes.origin target member with earlier | new
    · exact Or.inl earlier
    · exact Or.inr ⟨sub target new.1, new.2⟩

end Notes

@[simp] theorem references_degrade {before : State} {owner path shape : String} :
    (before.degrade owner path shape).references = before.references := rfl

@[simp] theorem references_close {before : State} {owner target : String} :
    (before.close owner target).references = before.references := rfl

@[simp] theorem references_declare {before : State} {declaration : Model.EnumDeclaration} :
    (before.declare declaration).references = before.references := by
  unfold State.declare
  split <;> rfl

theorem references_visit {before : State} {target : String} :
    (before.visit scope target).references = (before.refer scope.owner target).references := by
  unfold State.visit
  split <;> rfl

theorem mem_references_refer {before : State} {owner target name : String} :
    name ∈ (before.refer owner target).references ↔
      name ∈ before.references ∨ name = target ∧ target ≠ owner := by
  unfold State.refer
  by_cases known : target = owner ∨ target ∈ before.references
  · rw [if_pos known]
    rcases known with same | member
    · simp [same]
    · refine ⟨Or.inl, ?_⟩
      rintro (earlier | ⟨rfl, -⟩)
      · exact earlier
      · exact member
  · rw [if_neg known]
    obtain ⟨different, -⟩ := not_or.1 known
    simp [different]

theorem notes_visit {before : State} {target : String} :
    Notes scope [target] before (before.visit scope target) where
  kept name member := by
    rw [references_visit, mem_references_refer]
    exact Or.inl member
  origin name member := by
    rw [references_visit, mem_references_refer] at member
    rcases member with earlier | ⟨rfl, different⟩
    · exact Or.inl earlier
    · exact Or.inr ⟨List.mem_singleton.2 rfl, different⟩

/-- A symbol is that of a noted reference to a registered schema which closes no cycle. -/
def Justified (scope : Scope) (state : State) (symbol : String) : Prop :=
  ∃ target ∈ state.references, scope.registry.contains target ∧ ¬ scope.closes target ∧
    symbol = Naming.validatorName target scope.validatorSuffix

theorem Justified.mono {before after : State} {symbol : String}
    (kept : ∀ target ∈ before.references, target ∈ after.references)
    (h : Justified scope before symbol) : Justified scope after symbol := by
  obtain ⟨target, member, rest⟩ := h
  exact ⟨target, kept target member, rest⟩

/-- The schema whose class a shape names is an object schema. -/
def Classed (registry : Registry) (shape : Shape) : Prop :=
  ∀ target, Model.dtoTarget? shape = some target →
    ∃ schema, registry.get? target = some schema ∧ isObject schema

/-- What a mapping from one state to another may refer to. -/
structure Refers (scope : Scope) (cited : List String) (before : State) (values : List Mapped)
    (after : State) : Prop where
  notes : Notes scope cited before after
  symbols : ∀ value ∈ values, ∀ symbol ∈ value.validator.symbols, Justified scope after symbol
  classes : ∀ value ∈ values, Classed scope.registry value.shape

namespace Refers

variable {cited : List String} {before after : State} {value : Mapped}

/-- A mapping that notes no reference and uses none. -/
theorem plain (same : after.references = before.references)
    (symbols : value.validator.symbols = []) (classes : Model.dtoTarget? value.shape = none) :
    Refers scope cited before [value] after where
  notes := .of_eq same
  symbols := by simp [symbols]
  classes := by simp [Classed, classes]

/-- Another value of the same mapping that uses no further symbols and names no further classes. -/
theorem of_value {result : Mapped} (h : Refers scope cited before [value] after)
    (symbols : ∀ symbol ∈ result.validator.symbols, symbol ∈ value.validator.symbols)
    (classes : ∀ target, Model.dtoTarget? result.shape = some target →
      Model.dtoTarget? value.shape = some target) :
    Refers scope cited before [result] after where
  notes := h.notes
  symbols := by
    simp only [List.mem_singleton, forall_eq]
    intro symbol member
    exact h.symbols value (List.mem_singleton_self _) symbol (symbols symbol member)
  classes := by
    simp only [List.mem_singleton, forall_eq]
    intro target found
    exact h.classes value (List.mem_singleton_self _) target (classes target found)

theorem orNull (nullable : Bool) (h : Refers scope cited before [value] after) :
    Refers scope cited before [value.orNull nullable] after :=
  h.of_value (fun _ member => member) fun _ found => found

theorem mono {more : List String} (sub : ∀ t ∈ cited, t ∈ more)
    (h : Refers scope cited before [value] after) : Refers scope more before [value] after :=
  ⟨h.notes.mono sub, h.symbols, h.classes⟩

theorem recordOf (h : Refers scope cited before [value] after) :
    Refers scope cited before [recordOf value] after := by
  refine h.of_value ?_ (by simp [Mapping.recordOf, Model.dtoTarget?])
  intro symbol member
  simpa [Mapping.recordOf, Mapped.applyNullable, Validator.symbols] using member

theorem arrayOf (h : Refers scope cited before [value] after) :
    Refers scope cited before [arrayOf value] after := by
  refine h.of_value ?_ ?_
  · intro symbol member
    simpa [Mapping.arrayOf, Mapped.applyNullable, Validator.symbols] using member
  · intro target found
    simpa [Mapping.arrayOf, Mapped.applyNullable, Model.dtoTarget?] using found

end Refers

/-- A union uses the symbols of its members, and names a class only if it has just one. -/
theorem refers_unionOf {cited : List String} {before after : State} {values : List Mapped}
    {discriminator : Option String} (h : Refers scope cited before values after) :
    Refers scope cited before [unionOf scope discriminator values] after := by
  have applied {symbol : String}
      (member : symbol ∈ Validator.symbolsAll
        ((values.map Mapped.applyNullable).map (·.validator))) :
      Justified scope after symbol := by
    rw [Validator.mem_symbolsAll] at member
    obtain ⟨validator, inside, member⟩ := member
    simp only [List.map_map, List.mem_map] at inside
    obtain ⟨value, present, rfl⟩ := inside
    rw [Function.comp_apply, Mapped.applyNullable, Validator.symbols_orNull] at member
    exact h.symbols value present symbol member
  rcases values with _ | ⟨first, _ | ⟨second, rest⟩⟩
  · exact ⟨h.notes, by simp [unionOf, Validator.symbols],
      by simp [unionOf, Classed, Model.dtoTarget?]⟩
  · exact h
  · refine ⟨h.notes, ?_, by simp [unionOf, Classed, Model.dtoTarget?]⟩
    simp only [List.mem_singleton, forall_eq]
    intro symbol member
    simp only [unionOf] at member
    split at member
    · rw [Validator.symbols] at member
      exact applied member
    · split at member
      · rw [Validator.symbols] at member
        exact applied member
      · rw [Validator.symbols] at member
        exact applied member

theorem refers_mapString {facets : Schema.StringFacets} {hint : String} {before after : State}
    {value : Mapped} (h : Yields (mapString scope facets hint) before value after) :
    Refers scope [] before [value] after := by
  rcases yields_mapString h with ⟨-, rfl, rfl⟩ | ⟨literal, -, rfl, rfl⟩ | ⟨-, rfl, rfl⟩
  · exact .plain rfl (by simp [Validator.symbols]) (by simp [Model.dtoTarget?])
  · exact .plain rfl (by simp [Validator.symbols]) (by simp [Model.dtoTarget?])
  · exact .plain references_declare (by simp [enumValue, Validator.symbols])
      (by simp [enumValue, Model.dtoTarget?])

theorem refers_reference {target : String} {schema : Schema} {before : State}
    (registered : scope.registry.get? target = some schema) :
    Refers scope [target] before [referenceValue scope target schema]
      (before.visit scope target) where
  notes := notes_visit
  symbols := by
    simp only [List.mem_singleton, forall_eq, referenceValue]
    intro symbol member
    by_cases closes : scope.closes target
    · simp [closes, Validator.symbols] at member
    · rw [if_neg closes, Validator.symbols, List.mem_singleton] at member
      have different : target ≠ scope.owner := by
        rintro rfl
        exact closes (by simp [Scope.closes])
      refine ⟨target, ?_, Registry.contains_of_get? registered, closes, member⟩
      rw [references_visit, mem_references_refer]
      exact Or.inr ⟨rfl, different⟩
  classes := by
    simp only [List.mem_singleton, forall_eq, referenceValue]
    intro other found
    cases object : isObject schema with
    | false => simp [Model.dtoTarget?, object] at found
    | true =>
      simp only [Model.dtoTarget?, object, Option.some.injEq] at found
      exact ⟨schema, found ▸ registered, object⟩

/-- What a mapping refers to, kind by kind. -/
theorem refers_rules : Rules scope
    (fun schema _ _ before value after => Refers scope schema.refs before [value] after)
    (fun _ _ _ _ branches before values after =>
      Refers scope (Schema.branchRefs branches) before values after) where
  string run := by
    rw [Schema.refs]
    exact (refers_mapString run).orNull _
  number := (Refers.plain rfl (by simp [Validator.symbols]) (by simp [Model.dtoTarget?])).orNull _
  boolean := (Refers.plain rfl (by simp [Validator.symbols]) (by simp [Model.dtoTarget?])).orNull _
  null := (Refers.plain rfl (by simp [Validator.symbols]) (by simp [Model.dtoTarget?])).orNull _
  emptyObject :=
    (Refers.plain rfl (by simp [unknownValue, Validator.symbols])
      (by simp [unknownValue, Model.dtoTarget?])).orNull _
  dictionary := by
    intro name first rest required metadata hint path before value after _ _ ih
    rw [Schema.refs, Schema.propertyRefs]
    exact (ih.mono fun _ member => List.mem_append_left _ member).recordOf.orNull _
  literalObject := by
    intro name first rest required metadata hint path before _
    exact (Refers.plain references_degrade (by simp [unknownValue, Validator.symbols])
      (by simp [unknownValue, Model.dtoTarget?])).orNull _
  record _ ih := by
    rw [Schema.refs]
    exact ih.recordOf.orNull _
  untypedArray := by
    intro metadata hint path before
    have item : Refers scope (Schema.refs ⟨.array none, metadata⟩) before [unknownValue]
        (before.degrade scope.owner path "array without items") :=
      .plain references_degrade (by simp [unknownValue, Validator.symbols])
        (by simp [unknownValue, Model.dtoTarget?])
    exact item.arrayOf.orNull _
  array _ ih := by
    rw [Schema.refs]
    exact ih.arrayOf.orNull _
  oneOf _ ih := by
    rw [Schema.refs]
    exact (refers_unionOf ih).orNull _
  ref registered := by
    rw [Schema.refs]
    exact (refers_reference registered).orNull _
  done := ⟨.of_eq rfl, by simp, by simp⟩
  skip _ ih := by
    rw [Schema.branchRefs]
    exact ⟨ih.notes.mono fun _ member => List.mem_append_right _ member, ih.symbols, ih.classes⟩
  next := by
    intro branch branches hint path count index before value middle values after _ _ first rest
    rw [Schema.branchRefs]
    refine ⟨?_, ?_, ?_⟩
    · exact (first.notes.mono fun _ member => List.mem_append_left _ member).trans
        (rest.notes.mono fun _ member => List.mem_append_right _ member)
    · intro other member symbol used
      rcases List.mem_cons.1 member with rfl | member
      · exact (first.symbols other (List.mem_singleton_self _) symbol used).mono rest.notes.kept
      · exact rest.symbols other member symbol used
    · intro other member
      rcases List.mem_cons.1 member with rfl | member
      · exact first.classes other (List.mem_singleton_self _)
      · exact rest.classes other member

/-- What the mapping of a value refers to. -/
theorem refers_mapValue {schema : Schema} {hint path : String} {before after : State}
    {value : Mapped} (h : Yields (mapValue scope schema hint path) before value after) :
    Refers scope schema.refs before [value] after :=
  refers_rules.hold schema h

end ZodModules.Mapping
