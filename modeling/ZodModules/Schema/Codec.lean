import ZodModules.Schema.Basic
import ZodModules.Json.Printer

/-!
# Schemas as JSON

The written form of a schema names its kind under `type`. Writing leaves out what is absent.
Reading takes `null` for an absent optional field, skips unknown fields, and takes a record also as
the array of its fields in order, the last ones left out or not; of an inner schema the kind may
stand as its number in the order of the kinds.
-/

namespace ZodModules.Schema

/-- The object of the fields that are present. -/
def record (fields : List (String × Option Json)) : Json :=
  .object (fields.filterMap fun field => field.2.map fun value => (field.1, value))

/-- A list of strings. -/
def strings (texts : List String) : Json := .array (texts.map .string)

/-- A natural number. -/
def natural (n : Nat) : Json := .number (.integer n)

/-- A binary64 number. -/
def real (x : Binary64) : Json := .number (.float x)

/-- The written form of metadata. -/
def Metadata.toJson (metadata : Metadata) : Json :=
  record [
    ("description", metadata.description.map .string),
    ("nullable", some (.bool metadata.nullable)),
    ("example", metadata.example?),
    ("default", metadata.default?)]

mutual

/-- The written form of a schema. -/
def toJson : Schema → Json
  | ⟨kind, metadata⟩ => record [("kind", some (kindToJson kind)), ("metadata", some metadata.toJson)]

/-- The written form of a schema's kind. -/
def kindToJson : Kind Schema → Json
  | .string facets => record [
      ("type", some (.string "String")),
      ("format", facets.format.map .string),
      ("enum", if facets.literals.isEmpty then none else some (strings facets.literals)),
      ("min_length", facets.minLength.map natural),
      ("max_length", facets.maxLength.map natural),
      ("pattern", facets.pattern.map .string)]
  | .number facets => record [
      ("type", some (.string "Number")),
      ("minimum", facets.minimum.map real),
      ("maximum", facets.maximum.map real),
      ("integer", some (.bool facets.integer))]
  | .boolean => record [("type", some (.string "Boolean"))]
  | .null => record [("type", some (.string "Null"))]
  | .object properties required => record [
      ("type", some (.string "Object")),
      ("properties", some (.array (propertiesToJson properties))),
      ("required", some (strings required.toList))]
  | .record value => record [("type", some (.string "Record")), ("value", some value.toJson)]
  | .array none => record [("type", some (.string "Array"))]
  | .array (some items) => record [("type", some (.string "Array")), ("items", some items.toJson)]
  | .oneOf branches discriminator => record [
      ("type", some (.string "OneOf")),
      ("branches", some (.array (branchesToJson branches))),
      ("discriminator", discriminator.map .string)]
  | .ref target => record [("type", some (.string "Ref")), ("target", some (.string target))]

/-- The written form of properties. -/
def propertiesToJson : List (Property Schema) → List Json
  | [] => []
  | ⟨name, schema⟩ :: rest =>
    record [("name", some (.string name)), ("schema", some schema.toJson)] :: propertiesToJson rest

/-- The written form of the branches of a union. -/
def branchesToJson : List Schema → List Json
  | [] => []
  | schema :: rest => schema.toJson :: branchesToJson rest

end

/-- The text of a schema. -/
def text (schema : Schema) : String := schema.toJson.text

/-- Where the fields of a record are read from: its members, or the items of an array. -/
inductive Fields where
  | named (members : List (String × Json))
  | positional (items : List Json)

namespace Fields

/-- The fields of a record that has `count` of them. -/
def ofJson? (count : Nat) : Json → Option Fields
  | .object members => some (.named members)
  | .array items => if items.length ≤ count then some (.positional items) else none
  | _ => none

/-- The field with a name and a position. -/
def get? : Fields → Nat → String → Option Json
  | .named members, _, name => members.lookup name
  | .positional items, index, _ => items[index]?

theorem sizeOf_get?_lt {count index : Nat} {name : String} {json value : Json} {fields : Fields}
    (h : ofJson? count json = some fields) (hv : fields.get? index name = some value) :
    sizeOf value < sizeOf json := by
  cases json with
  | object members =>
    obtain rfl : Fields.named members = fields := by simpa [ofJson?] using h
    exact Json.sizeOf_lt_of_get? hv
  | array items =>
    simp only [ofJson?] at h
    split at h
    · obtain rfl : Fields.positional items = fields := by simpa using h
      have := List.sizeOf_lt_of_mem (List.mem_of_getElem? hv)
      simp only [Json.array.sizeOf_spec]
      omega
    · simp at h
  | _ => simp [ofJson?] at h

/-- Reads an optional field, which may be left out or `null`. -/
def optional? {α : Type} (fields : Fields) (index : Nat) (name : String) (read : Json → Option α) :
    Option (Option α) :=
  match fields.get? index name with
  | none | some .null => some none
  | some value => (read value).map some

/-- Reads a field that has a value to be taken when it is left out. -/
def withDefault? {α : Type} (fields : Fields) (index : Nat) (name : String) (absent : α)
    (read : Json → Option α) : Option α :=
  match fields.get? index name with
  | none => some absent
  | some value => read value

end Fields

/-- Reads a list of strings. -/
def strings? (value : Json) : Option (List String) :=
  value.items?.bind fun items => items.mapM Json.string?

/-- Reads metadata. -/
def Metadata.ofJson? (value : Json) : Option Metadata := do
  let fields ← Fields.ofJson? 4 value
  let description ← fields.optional? 0 "description" Json.string?
  let nullable ← fields.withDefault? 1 "nullable" false Json.bool?
  let example? ← fields.optional? 2 "example" some
  let default? ← fields.optional? 3 "default" some
  return ⟨description, nullable, example?, default?⟩

/-- Reads what is particular to strings. -/
def StringFacets.ofFields? (first : Nat) (fields : Fields) : Option StringFacets := do
  let format ← fields.optional? first "format" Json.string?
  let literals ← fields.withDefault? (first + 1) "enum" [] strings?
  let minLength ← fields.optional? (first + 2) "min_length" Json.nat?
  let maxLength ← fields.optional? (first + 3) "max_length" Json.nat?
  let pattern ← fields.optional? (first + 4) "pattern" Json.string?
  return ⟨format, literals, minLength, maxLength, pattern⟩

/-- Reads what is particular to numbers. -/
def NumberFacets.ofFields? (first : Nat) (fields : Fields) : Option NumberFacets := do
  let minimum ← fields.optional? first "minimum" Json.binary64?
  let maximum ← fields.optional? (first + 1) "maximum" Json.binary64?
  let integer ← fields.withDefault? (first + 2) "integer" false Json.bool?
  return ⟨minimum, maximum, integer⟩

/-- The kinds without what is particular to them. -/
inductive KindName where
  | string | number | boolean | null | object | record | array | oneOf | ref
deriving DecidableEq

namespace KindName

/-- The written name of a kind. -/
def text : KindName → String
  | string => "String"
  | number => "Number"
  | boolean => "Boolean"
  | null => "Null"
  | object => "Object"
  | record => "Record"
  | array => "Array"
  | oneOf => "OneOf"
  | ref => "Ref"

/-- All kinds, each at its number. -/
def all : List KindName := [string, number, boolean, null, object, record, array, oneOf, ref]

/-- The number of fields of a kind. -/
def fieldCount : KindName → Nat
  | string => 5
  | number => 3
  | boolean | null => 0
  | object | oneOf => 2
  | record | array | ref => 1

/-- Reads the name of a kind; inside another schema its number stands for it too. -/
def ofJson? (inner : Bool) : Json → Option KindName
  | .string name => all.find? (·.text == name)
  | .number (.integer n) => if inner && 0 ≤ n then all[n.toNat]? else none
  | _ => none

end KindName

/-- The name and the fields of a kind. The name stands under `type`, or first in an array that
holds no more than it and the fields of that kind. -/
def kindFields? (inner : Bool) (value : Json) : Option (KindName × Fields) :=
  match Fields.ofJson? 6 value with
  | none => none
  | some fields =>
    match (fields.get? 0 "type").bind (KindName.ofJson? inner) with
    | none => none
    | some name =>
      match fields with
      | .positional items =>
        if items.length ≤ name.fieldCount + 1 then some (name, fields) else none
      | .named _ => some (name, fields)

theorem ofJson?_of_kindFields? {inner : Bool} {value : Json} {name : KindName} {fields : Fields}
    (h : kindFields? inner value = some (name, fields)) : Fields.ofJson? 6 value = some fields := by
  grind [kindFields?]

mutual

/-- Reads a schema, which is part of another one if `inner`. -/
def read? (inner : Bool) (value : Json) : Option Schema :=
  match hf : Fields.ofJson? 2 value with
  | none => none
  | some fields =>
    match hk : fields.get? 0 "kind" with
    | none => none
    | some kindValue =>
      have := Fields.sizeOf_get?_lt hf hk
      match readKind? inner kindValue, fields.withDefault? 1 "metadata" {} Metadata.ofJson? with
      | some kind, some metadata => some ⟨kind, metadata⟩
      | _, _ => none
termination_by sizeOf value

/-- Reads the kind of a schema. -/
def readKind? (inner : Bool) (value : Json) : Option (Kind Schema) :=
  match hf : kindFields? inner value with
  | none => none
  | some (.string, fields) => (StringFacets.ofFields? 1 fields).map .string
  | some (.number, fields) => (NumberFacets.ofFields? 1 fields).map .number
  | some (.boolean, _) => some .boolean
  | some (.null, _) => some .null
  | some (.object, fields) =>
    match hp : fields.get? 1 "properties", fields.withDefault? 2 "required" [] strings? with
    | none, some required => some (.object [] (NameSet.ofList required))
    | some (.array items), some required =>
      have := Json.sizeOf_items_lt (Fields.sizeOf_get?_lt (ofJson?_of_kindFields? hf) hp)
      (readProperties? items).map fun properties => .object properties (NameSet.ofList required)
    | _, _ => none
  | some (.record, fields) =>
    match hv : fields.get? 1 "value" with
    | some inside =>
      have := Fields.sizeOf_get?_lt (ofJson?_of_kindFields? hf) hv
      (read? true inside).map .record
    | none => none
  | some (.array, fields) =>
    match hv : fields.get? 1 "items" with
    | none | some .null => some (.array none)
    | some inside =>
      have := Fields.sizeOf_get?_lt (ofJson?_of_kindFields? hf) hv
      (read? true inside).map fun items => .array (some items)
  | some (.oneOf, fields) =>
    match hb : fields.get? 1 "branches", fields.optional? 2 "discriminator" Json.string? with
    | some (.array items), some discriminator =>
      have := Json.sizeOf_items_lt (Fields.sizeOf_get?_lt (ofJson?_of_kindFields? hf) hb)
      (readBranches? items).map fun branches => .oneOf branches discriminator
    | _, _ => none
  | some (.ref, fields) => ((fields.get? 1 "target").bind Json.string?).map .ref
termination_by sizeOf value

/-- Reads the properties of an object. -/
def readProperties? : List Json → Option (List (Property Schema))
  | [] => some []
  | item :: rest =>
    match hf : Fields.ofJson? 2 item with
    | none => none
    | some fields =>
      match (fields.get? 0 "name").bind Json.string?, hs : fields.get? 1 "schema" with
      | some name, some schemaValue =>
        have := Fields.sizeOf_get?_lt hf hs
        match read? true schemaValue, readProperties? rest with
        | some schema, some properties => some (⟨name, schema⟩ :: properties)
        | _, _ => none
      | _, _ => none
termination_by items => sizeOf items
decreasing_by
  · exact Nat.lt_trans this (Json.sizeOf_head_lt item rest)
  · exact Json.sizeOf_tail_lt item rest

/-- Reads the branches of a union. -/
def readBranches? : List Json → Option (List Schema)
  | [] => some []
  | item :: rest =>
    match read? true item, readBranches? rest with
    | some schema, some branches => some (schema :: branches)
    | _, _ => none
termination_by items => sizeOf items

end

/-- Reads the written form of a schema. -/
def ofJson? (value : Json) : Option Schema := read? false value

end ZodModules.Schema
