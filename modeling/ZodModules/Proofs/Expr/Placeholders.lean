import ZodModules.Proofs.Expr.MappingReferences
import ZodModules.Proofs.Registry.Closures

/-!
# Placeholders in expressions

Which references of a schema are mapped, what stands in their places in its expression, and which of
them are reported: the places of those that close a cycle accept any value, the others use the
symbol of the schema referred to.
-/

namespace ZodModules

/-- The schema and the target of a reference that is reported to close a cycle. -/
def Diagnostic.recursion? : Diagnostic → Option (String × String)
  | recursion schema target => some (schema, target)
  | _ => none

namespace Validator

/-- An expression without the modifiers chained to it. -/
def base : Validator → Validator
  | nullable inner => inner.base
  | optional inner => inner.base
  | described inner _ => inner.base
  | defaulted inner _ => inner.base
  | validator => validator

/-- The members of a union. -/
def members : Validator → List Validator
  | union members => members
  | discriminatedUnion _ members => members
  | _ => []

@[simp] theorem base_base (validator : Validator) : validator.base.base = validator.base := by
  fun_induction base validator with
  | case1 inner ih => exact ih
  | case2 inner ih => exact ih
  | case3 inner description ih => exact ih
  | case4 inner value ih => exact ih
  | case5 validator => rw [base] <;> assumption

@[simp] theorem base_orNull (nullable : Bool) (validator : Validator) :
    (validator.orNull nullable).base = validator.base := by
  cases nullable <;> simp [orNull, base]

@[simp] theorem base_describe? (description : Option String) (validator : Validator) :
    (validator.describe? description).base = validator.base := by
  cases description <;> simp [describe?, base]

end Validator

namespace Schema

open Mapping (isDictionary isNull)

mutual

/-- The references of a value that are mapped, in order. Of an object only those of the first
property are, and only if it is a dictionary. -/
def mappedRefs : Schema → List String
  | ⟨.object (⟨name, first⟩ :: rest) _, _⟩ =>
    if isDictionary ⟨name, first⟩ rest then first.mappedRefs else []
  | ⟨.record value, _⟩ => value.mappedRefs
  | ⟨.array (some items), _⟩ => items.mappedRefs
  | ⟨.oneOf branches _, _⟩ => mappedBranchRefs branches
  | ⟨.ref target, _⟩ => [target]
  | ⟨.object [] _, _⟩ | ⟨.string _, _⟩ | ⟨.number _, _⟩ | ⟨.boolean, _⟩ | ⟨.null, _⟩
  | ⟨.array none, _⟩ => []

/-- The references of the branches of a union that are mapped. -/
def mappedBranchRefs : List Schema → List String
  | [] => []
  | branch :: branches => branch.mappedRefs ++ mappedBranchRefs branches

end

/-- The references of a whole schema that are mapped. Here an object is expanded. -/
def rootMappedRefs (schema : Schema) : List String :=
  match schema.kind with
  | .object properties _ => properties.flatMap (·.schema.mappedRefs)
  | _ => schema.mappedRefs

mutual

/-- What stands in the expression of a value in the places of its references that are mapped. -/
def places : Schema → Validator → List (String × Validator)
  | ⟨.object (⟨_, first⟩ :: _) _, _⟩, validator =>
    match validator.base with
    | .record value => first.places value
    | _ => []
  | ⟨.record value, _⟩, validator =>
    match validator.base with
    | .record inner => value.places inner
    | _ => []
  | ⟨.array (some items), _⟩, validator =>
    match validator.base with
    | .array item => items.places item
    | _ => []
  | ⟨.oneOf branches _, _⟩, validator =>
    branchPlaces branches
      (if branches.countP (!isNull ·) = 1 then [validator.base] else validator.base.members)
  | ⟨.ref target, _⟩, validator => [(target, validator.base)]
  | ⟨.object [] _, _⟩, _ | ⟨.string _, _⟩, _ | ⟨.number _, _⟩, _ | ⟨.boolean, _⟩, _ | ⟨.null, _⟩, _
  | ⟨.array none, _⟩, _ => []

/-- The same for the branches of a union that are not just `null`, each with its member. -/
def branchPlaces : List Schema → List Validator → List (String × Validator)
  | [], _ => []
  | branch :: branches, members =>
    if isNull branch then branchPlaces branches members
    else
      match members with
      | [] => []
      | member :: members => branch.places member ++ branchPlaces branches members

end

/-- What stands in the expression of a whole schema in the places of its references. -/
def rootPlaces (schema : Schema) (validator : Validator) : List (String × Validator) :=
  match schema.kind, validator.base with
  | .object properties _, .object fields =>
    (properties.zip fields).flatMap fun pair => pair.1.schema.places pair.2.2
  | .object _ _, _ => []
  | _, _ => schema.places validator

mutual

/-- What is mapped are references of the schema. -/
theorem mem_refs_of_mem_mappedRefs {target : String} :
    ∀ schema : Schema, target ∈ schema.mappedRefs → target ∈ schema.refs
  | ⟨.object (⟨name, first⟩ :: rest) _, _⟩, h => by
    rw [mappedRefs] at h
    split at h
    · rw [refs, propertyRefs]
      exact List.mem_append_left _ (mem_refs_of_mem_mappedRefs first h)
    · cases h
  | ⟨.record value, _⟩, h => by
    rw [mappedRefs] at h
    rw [refs]
    exact mem_refs_of_mem_mappedRefs value h
  | ⟨.array (some items), _⟩, h => by
    rw [mappedRefs] at h
    rw [refs]
    exact mem_refs_of_mem_mappedRefs items h
  | ⟨.oneOf branches _, _⟩, h => by
    rw [mappedRefs] at h
    rw [refs]
    exact mem_branchRefs_of_mem_mappedBranchRefs branches h
  | ⟨.ref _, _⟩, h => by
    rw [mappedRefs] at h
    rw [refs]
    exact h
  | ⟨.object [] _, _⟩, h | ⟨.string _, _⟩, h | ⟨.number _, _⟩, h | ⟨.boolean, _⟩, h | ⟨.null, _⟩, h
  | ⟨.array none, _⟩, h => by
    rw [mappedRefs] at h
    cases h

/-- The same for the branches of a union. -/
theorem mem_branchRefs_of_mem_mappedBranchRefs {target : String} :
    ∀ branches : List Schema, target ∈ mappedBranchRefs branches → target ∈ branchRefs branches
  | [], h => by
    rw [mappedBranchRefs] at h
    cases h
  | branch :: branches, h => by
    rw [mappedBranchRefs, List.mem_append] at h
    rw [branchRefs, List.mem_append]
    rcases h with own | later
    · exact Or.inl (mem_refs_of_mem_mappedRefs branch own)
    · exact Or.inr (mem_branchRefs_of_mem_mappedBranchRefs branches later)

end

theorem mem_refs_of_mem_rootMappedRefs {schema : Schema} {target : String}
    (mapped : target ∈ schema.rootMappedRefs) : target ∈ schema.refs := by
  obtain ⟨kind, metadata⟩ := schema
  cases kind with
  | object properties required =>
    obtain ⟨property, declared, inside⟩ := List.mem_flatMap.1 mapped
    rw [refs]
    exact mem_propertyRefs.2 ⟨property, declared, mem_refs_of_mem_mappedRefs property.schema inside⟩
  | _ => exact mem_refs_of_mem_mappedRefs _ mapped

/-- Modifiers do not change what stands in the places. -/
theorem places_congr {validator other : Validator} (same : validator.base = other.base)
    (schema : Schema) : schema.places validator = schema.places other := by
  obtain ⟨kind, metadata⟩ := schema
  cases kind with
  | object properties required => cases properties <;> simp [places, same]
  | array items => cases items <;> simp [places, same]
  | _ => simp [places, same]

theorem branchPlaces_congr {branches : List Schema} {members others : List Validator}
    (same : members.map Validator.base = others.map Validator.base) :
    branchPlaces branches members = branchPlaces branches others := by
  induction branches generalizing members others with
  | nil => simp [branchPlaces]
  | cons branch rest ih =>
    simp only [branchPlaces]
    split
    · exact ih same
    · cases members with
      | nil =>
        cases others with
        | nil => rfl
        | cons other others => simp at same
      | cons member members =>
        cases others with
        | nil => simp at same
        | cons other others =>
          simp only [List.map_cons, List.cons.injEq] at same
          obtain ⟨first, later⟩ := same
          have own : branch.places member = branch.places other := places_congr first branch
          have further : branchPlaces rest members = branchPlaces rest others := ih later
          simp [own, further]

end Schema

namespace Mapping

open Schema (branchPlaces mappedBranchRefs)

variable {scope : Scope}

/-- The references that were reported to close a cycle, each with the schema that makes it. -/
def State.recursions (state : State) : List (String × String) :=
  state.diagnostics.filterMap Diagnostic.recursion?

/-- What stands in the place of a reference. -/
def Scope.placeOf (scope : Scope) (target : String) : String × Validator :=
  (target, if scope.closes target then .any
    else .symbol (Naming.validatorName target scope.validatorSuffix))

/-- From one state to another some references were mapped: in its place each has what it should,
those to others than the owner were noted, and just those that close a cycle were reported, in
order. -/
structure Guards (scope : Scope) (cited : List String) (places : List (String × Validator))
    (before after : State) : Prop where
  places_eq : places = cited.map scope.placeOf
  noted : ∀ target, target ∈ after.references ↔
    target ∈ before.references ∨ target ∈ cited ∧ target ≠ scope.owner
  recursive : after.recursive = (before.recursive || cited.any scope.closes)
  reported : after.recursions =
    before.recursions ++ (cited.filter scope.closes).map fun target => (scope.owner, target)

namespace Guards

variable {cited more : List String} {first second : List (String × Validator)}
  {before middle after : State}

theorem nothing (noted : after.references = before.references)
    (recursive : after.recursive = before.recursive)
    (reported : after.recursions = before.recursions) : Guards scope [] [] before after where
  places_eq := rfl
  noted := by simp [noted]
  recursive := by simp [recursive]
  reported := by simp [reported]

theorem append (now : Guards scope cited first before middle)
    (later : Guards scope more second middle after) :
    Guards scope (cited ++ more) (first ++ second) before after where
  places_eq := by rw [now.places_eq, later.places_eq, List.map_append]
  noted := by
    intro target
    rw [later.noted, now.noted, List.mem_append, or_and_right, or_assoc]
  recursive := by rw [later.recursive, now.recursive, List.any_append, Bool.or_assoc]
  reported := by
    rw [later.reported, now.reported, List.filter_append, List.map_append, List.append_assoc]

end Guards

@[simp] theorem recursive_degrade {before : State} {owner path shape : String} :
    (before.degrade owner path shape).recursive = before.recursive := rfl

@[simp] theorem recursions_degrade {before : State} {owner path shape : String} :
    (before.degrade owner path shape).recursions = before.recursions := by
  simp [State.recursions, State.degrade, Diagnostic.recursion?]

@[simp] theorem recursive_declare {before : State} {declaration : Model.EnumDeclaration} :
    (before.declare declaration).recursive = before.recursive := by
  unfold State.declare
  split <;> rfl

@[simp] theorem recursions_declare {before : State} {declaration : Model.EnumDeclaration} :
    (before.declare declaration).recursions = before.recursions := by
  unfold State.declare
  split <;> rfl

theorem recursive_visit {before : State} {target : String} :
    (before.visit scope target).recursive = (before.recursive || scope.closes target) := by
  unfold State.visit State.refer
  cases closes : scope.closes target with
  | true => simp [State.close]
  | false =>
    simp only [Bool.false_eq_true, if_false, Bool.or_false]
    split <;> rfl

theorem recursions_visit {before : State} {target : String} :
    (before.visit scope target).recursions =
      before.recursions ++
        ([target].filter scope.closes).map fun target => (scope.owner, target) := by
  have refer : (before.refer scope.owner target).recursions = before.recursions := by
    unfold State.refer
    split <;> rfl
  unfold State.visit
  cases closes : scope.closes target with
  | true =>
    rw [if_pos rfl, ← refer]
    simp [State.recursions, State.close, Diagnostic.recursion?, closes]
  | false => simp [refer, closes]

theorem guards_reference {target : String} (schema : Schema) {metadata : Schema.Metadata}
    {before : State} :
    Guards scope [target]
      ((Schema.mk (.ref target) metadata).places (referenceValue scope target schema).validator)
      before (before.visit scope target) where
  places_eq := by
    by_cases closes : scope.closes target <;>
      simp [Schema.places, referenceValue, Scope.placeOf, closes, Validator.base]
  noted := by
    intro name
    rw [references_visit, mem_references_refer, List.mem_singleton]
    constructor
    · rintro (earlier | ⟨rfl, different⟩)
      · exact Or.inl earlier
      · exact Or.inr ⟨rfl, different⟩
    · rintro (earlier | ⟨rfl, different⟩)
      · exact Or.inl earlier
      · exact Or.inr ⟨rfl, different⟩
  recursive := by simp [recursive_visit]
  reported := recursions_visit

theorem guards_mapString {facets : Schema.StringFacets} {hint : String} {before after : State}
    {value : Mapped} (h : Yields (mapString scope facets hint) before value after) :
    Guards scope [] [] before after := by
  rcases yields_mapString h with ⟨-, rfl, -⟩ | ⟨literal, -, rfl, -⟩ | ⟨-, rfl, -⟩
  · exact .nothing rfl rfl rfl
  · exact .nothing rfl rfl rfl
  · exact .nothing references_declare recursive_declare recursions_declare

/-- The members of a union of values are these values, up to modifiers. -/
theorem branchPlaces_unionOf {branches : List Schema} {values : List Mapped}
    {discriminator : Option String}
    (count : values.length = branches.countP (!isNull ·)) (metadata : Schema.Metadata) :
    (Schema.mk (.oneOf branches discriminator) metadata).places
        (unionOf scope discriminator values).validator =
      branchPlaces branches (values.map (·.validator)) := by
  have bases : ((values.map Mapped.applyNullable).map (·.validator)).map Validator.base =
      (values.map (·.validator)).map Validator.base := by
    simp [Mapped.applyNullable]
  rw [Schema.places, ← count]
  rcases values with _ | ⟨first, _ | ⟨second, rest⟩⟩
  · rfl
  · apply Schema.branchPlaces_congr
    simp [unionOf]
  · have several : ¬ (first :: second :: rest).length = 1 := by simp
    rw [if_neg several]
    apply Schema.branchPlaces_congr
    rw [← bases]
    simp only [unionOf]
    split
    · rfl
    · split <;> rfl

theorem mappedRefs_of_isNull {schema : Schema} (null : isNull schema) : schema.mappedRefs = [] := by
  obtain ⟨kind, metadata⟩ := schema
  cases kind with
  | null => simp [Schema.mappedRefs]
  | _ => simp [isNull] at null

/-- What is mapped and reported, kind by kind. -/
theorem guards_rules : Rules scope
    (fun schema _ _ before value after =>
      Guards scope schema.mappedRefs (schema.places value.validator) before after)
    (fun _ _ _ _ branches before values after =>
      values.length = branches.countP (!isNull ·) ∧
        Guards scope (mappedBranchRefs branches) (branchPlaces branches (values.map (·.validator)))
          before after) where
  string run := by
    simp only [Schema.mappedRefs, Schema.places]
    exact guards_mapString run
  number := by
    simp only [Schema.mappedRefs, Schema.places]
    exact .nothing rfl rfl rfl
  boolean := by
    simp only [Schema.mappedRefs, Schema.places]
    exact .nothing rfl rfl rfl
  null := by
    simp only [Schema.mappedRefs, Schema.places]
    exact .nothing rfl rfl rfl
  emptyObject := by
    simp only [Schema.mappedRefs, Schema.places]
    exact .nothing rfl rfl rfl
  dictionary := by
    intro name first rest required metadata hint path before value after homogeneous _ ih
    rw [Schema.mappedRefs, if_pos homogeneous]
    have inner : first.places (value.validator.orNull value.nullable) =
        first.places value.validator := Schema.places_congr (by simp) first
    simpa [Schema.places, recordOf, Mapped.applyNullable, Mapped.orNull, Validator.base, inner]
      using ih
  literalObject := by
    intro name first rest required metadata hint path before mixed
    rw [Schema.mappedRefs, if_neg mixed]
    simp only [Schema.places, unknownValue, Mapped.orNull, Validator.base]
    exact .nothing references_degrade recursive_degrade recursions_degrade
  record := by
    intro item metadata hint path before value after _ ih
    have inner : item.places (value.validator.orNull value.nullable) =
        item.places value.validator := Schema.places_congr (by simp) item
    simpa [Schema.mappedRefs, Schema.places, recordOf, Mapped.applyNullable, Mapped.orNull,
      Validator.base, inner] using ih
  untypedArray := by
    simp only [Schema.mappedRefs, Schema.places]
    exact .nothing references_degrade recursive_degrade recursions_degrade
  array := by
    intro items metadata hint path before value after _ ih
    have inner : items.places (value.validator.orNull value.nullable) =
        items.places value.validator := Schema.places_congr (by simp) items
    simpa [Schema.mappedRefs, Schema.places, arrayOf, Mapped.applyNullable, Mapped.orNull,
      Validator.base, inner] using ih
  oneOf := by
    intro branches discriminator metadata hint path before values after _ ih
    obtain ⟨count, guards⟩ := ih
    rw [Schema.mappedRefs, Mapped.orNull, branchPlaces_unionOf count]
    exact guards
  ref := by
    intro target schema metadata hint path before _
    rw [Schema.mappedRefs]
    exact guards_reference schema
  done := by
    intro hint path count index before
    simp only [mappedBranchRefs, branchPlaces]
    exact ⟨rfl, .nothing rfl rfl rfl⟩
  skip := by
    intro branch branches hint path count index before values after null ih
    obtain ⟨count, guards⟩ := ih
    rw [mappedBranchRefs, mappedRefs_of_isNull null, List.nil_append]
    simp only [branchPlaces, null, if_true]
    refine ⟨?_, guards⟩
    rw [count, List.countP_cons_of_neg]
    simp [null]
  next := by
    intro branch branches hint path count index before value middle values after notNull _ first
      rest
    obtain ⟨count, guards⟩ := rest
    rw [mappedBranchRefs, List.map_cons]
    simp only [branchPlaces, notNull]
    refine ⟨?_, first.append guards⟩
    rw [List.length_cons, count, List.countP_cons_of_pos]
    simp [notNull]

end Mapping

end ZodModules
