import ZodModules.Data.NameSet
import ZodModules.Json.Basic

/-!
# Schemas

A schema describes the values of one shape: its kind, with what is particular to the kind, and the
metadata that every kind may carry. Object properties keep the order of their declaration.
-/

namespace ZodModules

namespace Schema

/-- What a schema of any kind may say. -/
structure Metadata where
  description : Option String := none
  /-- Whether `null` is accepted as well. -/
  nullable : Bool := false
  example? : Option Json := none
  default? : Option Json := none

/-- Whether nothing is said. -/
def Metadata.isEmpty (metadata : Metadata) : Bool :=
  metadata.description.isNone && !metadata.nullable && metadata.example?.isNone &&
    metadata.default?.isNone

/-- Which strings are accepted. -/
structure StringFacets where
  format : Option String := none
  /-- The accepted literals, in order of declaration; if empty any string may be accepted. -/
  literals : List String := []
  minLength : Option Nat := none
  maxLength : Option Nat := none
  pattern : Option String := none
deriving DecidableEq

/-- Which numbers are accepted; both bounds belong to the range. -/
structure NumberFacets where
  minimum : Option Binary64 := none
  maximum : Option Binary64 := none
  integer : Bool := false
deriving DecidableEq

/-- A named property of an object, over the type of schemas. -/
structure Property (σ : Type) where
  name : String
  schema : σ

/-- The kinds of schemas, over the type of schemas. -/
inductive Kind (σ : Type) where
  | string (facets : StringFacets)
  | number (facets : NumberFacets)
  | boolean
  | null
  | object (properties : List (Property σ)) (required : NameSet)
  /-- Any keys, all with values of one schema. -/
  | record (value : σ)
  /-- An array; without `items` nothing is said about its items. -/
  | array (items : Option σ)
  /-- One of several alternatives, which a property may tell apart. -/
  | oneOf (branches : List σ) (discriminator : Option String)
  /-- The schema registered under a name. -/
  | ref (target : String)

end Schema

/-- A schema: its kind and its metadata. -/
inductive Schema where
  | mk (kind : Schema.Kind Schema) (metadata : Schema.Metadata)

namespace Schema

/-- The kind of a schema. -/
def kind : Schema → Kind Schema
  | ⟨kind, _⟩ => kind

/-- The metadata of a schema. -/
def metadata : Schema → Metadata
  | ⟨_, metadata⟩ => metadata

@[simp] theorem kind_mk (k : Kind Schema) (m : Metadata) : (mk k m).kind = k := rfl

@[simp] theorem metadata_mk (k : Kind Schema) (m : Metadata) : (mk k m).metadata = m := rfl

/-- The schema of a kind about which nothing else is said. -/
def ofKind (kind : Kind Schema) : Schema := ⟨kind, {}⟩

instance : Inhabited Schema := ⟨ofKind .null⟩

/-- The word for a kind in messages. -/
def Kind.label {σ : Type} : Kind σ → String
  | .string _ => "string"
  | .number _ => "number"
  | .boolean => "boolean"
  | .null => "null"
  | .object _ _ => "object"
  | .record _ => "record"
  | .array _ => "array"
  | .oneOf _ _ => "oneOf"
  | .ref _ => "ref"

/-- Whether schemas of a kind hold no other schema and refer to none. -/
def Kind.isPrimitive {σ : Type} : Kind σ → Bool
  | .string _ | .number _ | .boolean | .null => true
  | _ => false

/-- The name that a reference refers to. -/
def refTarget? (schema : Schema) : Option String :=
  match schema.kind with
  | .ref target => some target
  | _ => none

mutual

/-- The names that a schema refers to, in order of appearance. -/
def refs : Schema → List String
  | ⟨.object properties _, _⟩ => propertyRefs properties
  | ⟨.record value, _⟩ => value.refs
  | ⟨.array (some items), _⟩ => items.refs
  | ⟨.oneOf branches _, _⟩ => branchRefs branches
  | ⟨.ref target, _⟩ => [target]
  | ⟨.string _, _⟩ | ⟨.number _, _⟩ | ⟨.boolean, _⟩ | ⟨.null, _⟩ | ⟨.array none, _⟩ => []

/-- The names that the schemas of some properties refer to. -/
def propertyRefs : List (Property Schema) → List String
  | [] => []
  | ⟨_, schema⟩ :: rest => schema.refs ++ propertyRefs rest

/-- The names that the branches of a union refer to. -/
def branchRefs : List Schema → List String
  | [] => []
  | schema :: rest => schema.refs ++ branchRefs rest

end

end Schema

end ZodModules
