import ZodModules.Schema.Basic

/-!
# The parts of schemas

The schemas that a schema is made of, and the examples and default values that are `null` in it or
somewhere inside.
-/

namespace ZodModules.Schema

section Parts

variable {σ τ : Type}

/-- The schemas that a kind is made of. -/
def Kind.parts : Kind σ → List σ
  | .object properties _ => properties.map (·.schema)
  | .record value => [value]
  | .array items => items.toList
  | .oneOf branches _ => branches
  | .string _ | .number _ | .boolean | .null | .ref _ => []

/-- A kind with other schemas in place of those it is made of. -/
def Kind.map (f : σ → τ) : Kind σ → Kind τ
  | .string facets => .string facets
  | .number facets => .number facets
  | .boolean => .boolean
  | .null => .null
  | .object properties required =>
    .object (properties.map fun property => ⟨property.name, f property.schema⟩) required
  | .record value => .record (f value)
  | .array items => .array (items.map f)
  | .oneOf branches discriminator => .oneOf (branches.map f) discriminator
  | .ref target => .ref target

end Parts

theorem sizeOf_lt_of_mem_parts {kind : Kind Schema} {metadata : Metadata} {part : Schema}
    (member : part ∈ kind.parts) : sizeOf part < sizeOf (mk kind metadata) := by
  rw [mk.sizeOf_spec]
  cases kind with
  | object properties required =>
    obtain ⟨⟨name, schema⟩, listed, rfl⟩ := List.mem_map.1 member
    have := List.sizeOf_lt_of_mem listed
    simp only [Property.mk.sizeOf_spec] at this
    simp only [Kind.object.sizeOf_spec]
    omega
  | record value =>
    obtain rfl := List.mem_singleton.1 member
    simp only [Kind.record.sizeOf_spec]
    omega
  | array items =>
    obtain rfl := Option.mem_toList.1 member
    simp only [Kind.array.sizeOf_spec, Option.some.sizeOf_spec]
    omega
  | oneOf branches discriminator =>
    have listed : part ∈ branches := member
    have := List.sizeOf_lt_of_mem listed
    simp only [Kind.oneOf.sizeOf_spec]
    omega
  | _ => cases member

/-- Induction over schemas: what holds of a schema if it holds of those it is made of holds of all. -/
theorem forall_of_parts {motive : Schema → Prop}
    (step : ∀ kind metadata, (∀ part ∈ kind.parts, motive part) → motive ⟨kind, metadata⟩) :
    ∀ schema, motive schema
  | ⟨kind, metadata⟩ => step kind metadata fun part _ => forall_of_parts step part
termination_by schema => sizeOf schema
decreasing_by
  rename_i member
  exact sizeOf_lt_of_mem_parts member

/-! ## Nulls -/

/-- An optional value, unless it is `null`. -/
def present? : Option Json → Option Json
  | some .null => none
  | value? => value?

/-- Metadata without an example or a default value `null`. -/
def Metadata.withoutNulls (metadata : Metadata) : Metadata :=
  { metadata with
    example? := present? metadata.example?
    default? := present? metadata.default? }

mutual

/-- A schema in which no example and no default value is `null`, and else the same. -/
def withoutNulls : Schema → Schema
  | ⟨kind, metadata⟩ => ⟨kindWithoutNulls kind, metadata.withoutNulls⟩

/-- The same for the schemas that a kind is made of. -/
def kindWithoutNulls : Kind Schema → Kind Schema
  | .string facets => .string facets
  | .number facets => .number facets
  | .boolean => .boolean
  | .null => .null
  | .object properties required => .object (propertiesWithoutNulls properties) required
  | .record value => .record value.withoutNulls
  | .array none => .array none
  | .array (some items) => .array (some items.withoutNulls)
  | .oneOf branches discriminator => .oneOf (branchesWithoutNulls branches) discriminator
  | .ref target => .ref target

/-- The same for properties. -/
def propertiesWithoutNulls : List (Property Schema) → List (Property Schema)
  | [] => []
  | ⟨name, schema⟩ :: rest => ⟨name, schema.withoutNulls⟩ :: propertiesWithoutNulls rest

/-- The same for the branches of a union. -/
def branchesWithoutNulls : List Schema → List Schema
  | [] => []
  | schema :: rest => schema.withoutNulls :: branchesWithoutNulls rest

end

theorem propertiesWithoutNulls_eq_map (properties : List (Property Schema)) :
    propertiesWithoutNulls properties =
      properties.map fun property => ⟨property.name, property.schema.withoutNulls⟩ := by
  induction properties with
  | nil => rw [propertiesWithoutNulls, List.map_nil]
  | cons property rest ih => rw [propertiesWithoutNulls, ih, List.map_cons]

theorem branchesWithoutNulls_eq_map (branches : List Schema) :
    branchesWithoutNulls branches = branches.map withoutNulls := by
  induction branches with
  | nil => rw [branchesWithoutNulls, List.map_nil]
  | cons branch rest ih => rw [branchesWithoutNulls, ih, List.map_cons]

theorem withoutNulls_mk (kind : Kind Schema) (metadata : Metadata) :
    withoutNulls ⟨kind, metadata⟩ = ⟨kind.map withoutNulls, metadata.withoutNulls⟩ := by
  rw [withoutNulls]
  congr 1
  cases kind with
  | object properties required => rw [kindWithoutNulls, propertiesWithoutNulls_eq_map, Kind.map]
  | array items => cases items <;> rw [kindWithoutNulls, Kind.map] <;> rfl
  | oneOf branches discriminator => rw [kindWithoutNulls, branchesWithoutNulls_eq_map, Kind.map]
  | _ => rw [kindWithoutNulls, Kind.map]

end ZodModules.Schema
