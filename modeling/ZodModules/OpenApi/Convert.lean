import ZodModules.OpenApi.Reference
import ZodModules.Schema.Basic
import ZodModules.Json.Printer

/-!
# Converting schema objects

How a schema object of an OpenAPI document becomes a `Schema`. An `allOf` of several members becomes
one object with the properties of all object members. A member that is a reference stands for the
component of that name, unless the component is being merged already by an enclosing composition;
so the conversion ends on components that compose one another.
-/

namespace ZodModules.OpenApi

open Schema (Kind Property StringFacets NumberFacets Metadata)

/-- The components of a document that references may name. -/
abbrev Components := List (String × Json)

/-- An object about which nothing is said. -/
def emptyObject : Schema := .ofKind (.object [] ∅)

/-- The types that a schema object declares. -/
def declaredTypes (value : Json) : List String :=
  match value.get? "type" with
  | some (.string type) => [type]
  | some (.array types) => types.filterMap Json.string?
  | _ => []

/-- The declared types other than `null`. -/
def valueTypes (value : Json) : List String := (declaredTypes value).filter (· != "null")

/-- Whether `null` is one of the declared types. -/
def declaresNull (value : Json) : Bool := (declaredTypes value).contains "null"

/-- The literal that an entry of an enum stands for; `null` stands for none. -/
def literal? : Json → Option String
  | .null => none
  | .string text => some text
  | value => some value.text

/-- The facets of a string schema. -/
def stringFacets (value : Json) : StringFacets where
  format := (value.get? "format").bind Json.string?
  literals := (((value.get? "enum").bind Json.items?).getD []).filterMap literal?
  minLength := (value.get? "minLength").bind Json.nat?
  maxLength := (value.get? "maxLength").bind Json.nat?
  pattern := (value.get? "pattern").bind Json.string?

/-- The facets of a number schema. -/
def numberFacets (value : Json) (integer : Bool) : NumberFacets where
  minimum := (value.get? "minimum").bind Json.binary64?
  maximum := (value.get? "maximum").bind Json.binary64?
  integer := integer

/-- The names that a schema object requires. -/
def requiredNames (value : Json) : NameSet :=
  NameSet.ofList ((((value.get? "required").bind Json.items?).getD []).filterMap Json.string?)

/-- The property that tells apart the branches of a union. -/
def discriminator? (value : Json) : Option String :=
  (((value.get? "discriminator").bind (·.get? "propertyName")).bind Json.string?)

/-- Adds what a schema object says of any kind to the metadata of its conversion. -/
def addMetadata (value : Json) (schema : Schema) : Schema :=
  let metadata := schema.metadata
  let isNullable := (value.get? "nullable").bind Json.bool? == some true ||
    (declaresNull value && !(valueTypes value).isEmpty)
  ⟨schema.kind, {
    description := ((value.get? "description").bind Json.string?).or metadata.description
    nullable := isNullable || metadata.nullable
    example? := (value.get? "example").or metadata.example?
    default? := (value.get? "default").or metadata.default? }⟩

/-- The union of converted branches; a single branch stands for itself. -/
def unionOf (discriminator : Option String) : List Schema → Schema
  | [schema] => schema
  | branches => .ofKind (.oneOf branches discriminator)

/-- The properties with one more declared last, in place of an earlier one of its name. -/
def redeclare (properties : List (Property Schema)) (property : Property Schema) :
    List (Property Schema) :=
  properties.filter (·.name != property.name) ++ [property]

/-- The kind of the merged objects: all properties, of two with one name the later, and all
requirements. Schemas of other kinds are left out. -/
def mergeObjects (members : List Schema) : Kind Schema :=
  let merged := members.foldl (fun (properties, required) member =>
    match member.kind with
    | .object more moreRequired =>
      (more.foldl redeclare properties, NameSet.union required moreRequired)
    | _ => (properties, required)) (([] : List (Property Schema)), (∅ : NameSet))
  .object merged.1 merged.2

/-- The components that are not being merged. -/
def unmerged (components : Components) (merging : NameSet) : List (String × Json) :=
  components.filter fun component => !merging.contains component.1

theorem length_unmerged_insert_lt {components : Components} {merging : NameSet} {name : String}
    {value : Json} (h : components.lookup name = some value) (hm : merging.contains name = false) :
    (unmerged components (merging.insert name)).length < (unmerged components merging).length := by
  have hmem : (name, value) ∈ unmerged components merging :=
    List.mem_filter.2 ⟨Json.mem_of_lookup h, by simpa using hm⟩
  have hsub : unmerged components (merging.insert name) =
      (unmerged components merging).filter (fun component => component.1 != name) := by
    simp only [unmerged, List.filter_filter]
    congr 1
    funext component
    by_cases hc : component.1 = name <;> simp [NameSet.contains, hc]
  rw [hsub]
  exact List.length_filter_lt_length_iff_exists.2 ⟨_, hmem, by simp⟩

mutual

/-- Converts a value in the place of a schema; one that is no object says nothing. -/
def convertWithin (components : Components) (merging : NameSet) (value : Json) : Schema :=
  match value.members? with
  | some _ => addMetadata value (convertObject components merging value)
  | none => emptyObject
termination_by ((unmerged components merging).length, sizeOf value, 3)

/-- Converts a schema object without its metadata. -/
def convertObject (components : Components) (merging : NameSet) (value : Json) : Schema :=
  match (value.get? "$ref").bind Json.string? with
  | some reference => .ofKind (.ref (refName reference))
  | none =>
    match hu : (value.get? "oneOf").or (value.get? "anyOf") with
    | some (.array branches) =>
      have : sizeOf branches < sizeOf value := by
        rcases Option.or_eq_some_iff.1 hu with h | ⟨_, h⟩
        · exact Json.sizeOf_items_lt (Json.sizeOf_lt_of_get? h)
        · exact Json.sizeOf_items_lt (Json.sizeOf_lt_of_get? h)
      unionOf (discriminator? value) (convertAll components merging branches)
    | _ =>
      match ha : value.get? "allOf" with
      | some (.array [member]) =>
        have : sizeOf member < sizeOf value := by
          have := Json.sizeOf_items_lt (Json.sizeOf_lt_of_get? ha)
          simp only [List.cons.sizeOf_spec] at this
          omega
        convertWithin components merging member
      | some (.array members) =>
        have := Json.sizeOf_items_lt (Json.sizeOf_lt_of_get? ha)
        .ofKind (mergeObjects (convertMembers components merging members))
      | _ =>
        match valueTypes value with
        | [] =>
          if declaresNull value then .ofKind .null
          else if (value.get? "properties").isSome || (value.get? "additionalProperties").isSome then
            convertTyped components merging "object" value
          else if (value.get? "items").isSome then convertTyped components merging "array" value
          else if (value.get? "enum").isSome then .ofKind (.string (stringFacets value))
          else emptyObject
        | [type] => convertTyped components merging type value
        | types =>
          .ofKind (.oneOf (types.map fun type => convertTyped components merging type value) none)
termination_by ((unmerged components merging).length, sizeOf value, 2)

/-- Converts a schema object as one of a type. -/
def convertTyped (components : Components) (merging : NameSet) (type : String) (value : Json) :
    Schema :=
  if type = "string" then .ofKind (.string (stringFacets value))
  else if type = "number" then .ofKind (.number (numberFacets value false))
  else if type = "integer" then .ofKind (.number (numberFacets value true))
  else if type = "boolean" then .ofKind .boolean
  else if type = "array" then
    match hi : value.get? "items" with
    | some items =>
      have := Json.sizeOf_lt_of_get? hi
      .ofKind (.array (some (convertWithin components merging items)))
    | none => .ofKind (.array none)
  else if type = "object" then
    let properties :=
      match hp : value.get? "properties" with
      | some (.object members) =>
        have := Json.sizeOf_members_lt (Json.sizeOf_lt_of_get? hp)
        convertProperties components merging members
      | _ => []
    match hr : value.get? "additionalProperties" with
    | some entries =>
      have := Json.sizeOf_lt_of_get? hr
      if properties.isEmpty && entries.members?.isSome then
        .ofKind (.record (convertWithin components merging entries))
      else .ofKind (.object properties (requiredNames value))
    | none => .ofKind (.object properties (requiredNames value))
  else emptyObject
termination_by ((unmerged components merging).length, sizeOf value, 1)

/-- Converts schemas in order. -/
def convertAll (components : Components) (merging : NameSet) : List Json → List Schema
  | [] => []
  | value :: rest =>
    convertWithin components merging value :: convertAll components merging rest
termination_by values => ((unmerged components merging).length, sizeOf values, 0)

/-- Converts the properties of an object in order. -/
def convertProperties (components : Components) (merging : NameSet) :
    List (String × Json) → List (Property Schema)
  | [] => []
  | (name, value) :: rest =>
    ⟨name, convertWithin components merging value⟩ :: convertProperties components merging rest
termination_by members => ((unmerged components merging).length, sizeOf members, 0)

/-- Converts the members of a composition in order. A reference to a component that is missing or
being merged is left out. -/
def convertMembers (components : Components) (merging : NameSet) : List Json → List Schema
  | [] => []
  | member :: rest =>
    match (member.get? "$ref").bind Json.string? with
    | none => convertWithin components merging member :: convertMembers components merging rest
    | some reference =>
      match hc : components.lookup (refName reference), hm : merging.contains (refName reference) with
      | some target, false =>
        have := length_unmerged_insert_lt hc hm
        convertWithin components (merging.insert (refName reference)) target ::
          convertMembers components merging rest
      | _, _ => convertMembers components merging rest
termination_by members => ((unmerged components merging).length, sizeOf members, 0)

end

/-- Converts a value in the place of a schema. -/
def convert (components : Components) (value : Json) : Schema := convertWithin components ∅ value

end ZodModules.OpenApi
