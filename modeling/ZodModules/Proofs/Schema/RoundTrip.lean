import ZodModules.Schema.Codec
import ZodModules.Proofs.Data.Listings
import ZodModules.Proofs.Json.Reading
import ZodModules.Proofs.Schema.Parts
import Mathlib.Data.List.Nodup

/-!
# Written schemas read back

A schema is read back from its written form, except that an example or a default value `null` is
read as none: what is read is the schema without these nulls, and the schema itself only if it holds
none. The same goes for the text of a schema of which all values can be written exactly, unless the
text nests too deep for its reader.
-/

namespace ZodModules.Schema

section Fields

variable {α : Type} {fields : List (String × Option Json)} {name : String}

/-- The fields of a record that are present. -/
def presentFields (fields : List (String × Option Json)) : List (String × Json) :=
  fields.filterMap fun field => field.2.map fun value => (field.1, value)

theorem record_eq (fields : List (String × Option Json)) :
    record fields = .object (presentFields fields) := rfl

theorem ofJson?_record (count : Nat) (fields : List (String × Option Json)) :
    Fields.ofJson? count (record fields) = some (.named (presentFields fields)) := rfl

theorem lookup_presentFields_of_not_mem (unlisted : name ∉ fields.map Prod.fst) :
    (presentFields fields).lookup name = none := by
  rw [List.lookup_eq_none_iff]
  intro entry present
  obtain ⟨field, listed, found⟩ := List.mem_filterMap.1 present
  obtain ⟨value, -, rfl⟩ := Option.map_eq_some_iff.1 found
  rw [bne_iff_ne]
  rintro rfl
  exact unlisted (List.mem_map_of_mem listed)

/-- A field of a record stands under its name if it is present. -/
theorem lookup_presentFields (distinct : (fields.map Prod.fst).Nodup) (name : String) :
    (presentFields fields).lookup name = (fields.lookup name).join := by
  induction fields with
  | nil => rfl
  | cons field rest ih =>
    obtain ⟨key, value?⟩ := field
    obtain ⟨fresh, distinct⟩ := List.nodup_cons.1 distinct
    have others := ih distinct
    by_cases own : name = key
    · subst own
      cases value? with
      | none =>
        rw [List.lookup_cons_self]
        show (presentFields rest).lookup name = none
        exact lookup_presentFields_of_not_mem fresh
      | some value => simp [presentFields]
    · rw [List.lookup_cons, beq_false_of_ne own, ← others]
      cases value? with
      | none => rfl
      | some value => simp [presentFields, List.lookup_cons, beq_false_of_ne own]

theorem sublist_map_fst_presentFields (fields : List (String × Option Json)) :
    List.Sublist ((presentFields fields).map Prod.fst) (fields.map Prod.fst) := by
  induction fields with
  | nil => exact .slnil
  | cons field rest ih =>
    obtain ⟨key, value?⟩ := field
    cases value? with
    | none => exact .cons key ih
    | some value => exact .cons_cons key ih

variable {index : Nat} {read : Json → Option α}

/-- An optional field is read back. -/
theorem optional?_record (read : Json → Option α) {write : α → Json} {value? : Option α}
    (distinct : (fields.map Prod.fst).Nodup)
    (written : fields.lookup name = some (value?.map write)) (value : ∀ a, write a ≠ .null)
    (back : ∀ a, read (write a) = some a) :
    (Fields.named (presentFields fields)).optional? index name read = some value? := by
  rw [Fields.optional?, Fields.get?, lookup_presentFields distinct, written, Option.join_some]
  cases value? with
  | none => rfl
  | some a =>
    rw [Option.map_some]
    split
    · rename_i impossible
      cases impossible
    · rename_i null
      exact absurd (Option.some.inj null) (value a)
    · rename_i found
      cases found
      rw [back, Option.map_some]

/-- A value that may be `null` is read back as none if it is. -/
theorem optional?_record_json {value? : Option Json} (distinct : (fields.map Prod.fst).Nodup)
    (written : fields.lookup name = some value?) :
    (Fields.named (presentFields fields)).optional? index name some = some (present? value?) := by
  rw [Fields.optional?, Fields.get?, lookup_presentFields distinct, written, Option.join_some]
  cases value? with
  | none => rfl
  | some value => cases value <;> rfl

theorem get?_record {value : Json} (distinct : (fields.map Prod.fst).Nodup)
    (written : fields.lookup name = some (some value)) :
    (Fields.named (presentFields fields)).get? index name = some value := by
  rw [Fields.get?, lookup_presentFields distinct, written, Option.join_some]

theorem withDefault?_record {absent : α} {value : Json} (distinct : (fields.map Prod.fst).Nodup)
    (written : fields.lookup name = some (some value)) :
    (Fields.named (presentFields fields)).withDefault? index name absent read = read value := by
  rw [Fields.withDefault?, get?_record distinct written]

theorem strings?_strings (texts : List String) : strings? (strings texts) = some texts := by
  show (texts.map Json.string).mapM Json.string? = some texts
  induction texts with
  | nil => rfl
  | cons text rest ih => 
    rw [List.map_cons, List.mapM_cons, ih]
    rfl

theorem Metadata.ofJson?_record {metadata : Metadata} (distinct : (fields.map Prod.fst).Nodup)
    (description : fields.lookup "description" = some (metadata.description.map .string))
    (nullable : fields.lookup "nullable" = some (some (.bool metadata.nullable)))
    (example? : fields.lookup "example" = some metadata.example?)
    (default? : fields.lookup "default" = some metadata.default?) :
    Metadata.ofJson? (record fields) = some metadata.withoutNulls := by
  rw [Metadata.ofJson?, Schema.ofJson?_record]
  simp only [Option.bind_eq_bind, Option.bind_some,
    optional?_record Json.string? distinct description (by simp) fun _ => rfl,
    withDefault?_record distinct nullable, Json.bool?, optional?_record_json distinct example?,
    optional?_record_json distinct default?]
  rfl

theorem Metadata.ofJson?_toJson (metadata : Metadata) :
    Metadata.ofJson? metadata.toJson = some metadata.withoutNulls :=
  Metadata.ofJson?_record (by simp) rfl rfl rfl rfl

theorem StringFacets.ofFields?_record {facets : StringFacets} {first : Nat}
    (distinct : (fields.map Prod.fst).Nodup)
    (format : fields.lookup "format" = some (facets.format.map .string))
    (literals : fields.lookup "enum" =
      some (if facets.literals.isEmpty then none else some (strings facets.literals)))
    (minLength : fields.lookup "min_length" = some (facets.minLength.map natural))
    (maxLength : fields.lookup "max_length" = some (facets.maxLength.map natural))
    (pattern : fields.lookup "pattern" = some (facets.pattern.map .string)) :
    StringFacets.ofFields? first (.named (presentFields fields)) = some facets := by
  have listed : (Fields.named (presentFields fields)).withDefault? (first + 1) "enum" [] strings? =
      some facets.literals := by
    by_cases any : facets.literals.isEmpty
    · rw [if_pos any] at literals
      rw [Fields.withDefault?, Fields.get?, lookup_presentFields distinct, literals,
        List.isEmpty_iff.1 any]
      rfl
    · rw [if_neg any] at literals
      rw [withDefault?_record distinct literals, strings?_strings]
  simp only [StringFacets.ofFields?, Option.bind_eq_bind, Option.bind_some, listed,
    optional?_record Json.string? distinct format (by simp) fun _ => rfl,
    optional?_record Json.nat? distinct minLength (by simp [natural]) fun _ => rfl,
    optional?_record Json.nat? distinct maxLength (by simp [natural]) fun _ => rfl,
    optional?_record Json.string? distinct pattern (by simp) fun _ => rfl]
  rfl

theorem NumberFacets.ofFields?_record {facets : NumberFacets} {first : Nat}
    (distinct : (fields.map Prod.fst).Nodup)
    (minimum : fields.lookup "minimum" = some (facets.minimum.map real))
    (maximum : fields.lookup "maximum" = some (facets.maximum.map real))
    (integer : fields.lookup "integer" = some (some (.bool facets.integer))) :
    NumberFacets.ofFields? first (.named (presentFields fields)) = some facets := by
  simp only [NumberFacets.ofFields?, Option.bind_eq_bind, Option.bind_some,
    optional?_record Json.binary64? distinct minimum (by simp [real]) fun _ => rfl,
    optional?_record Json.binary64? distinct maximum (by simp [real]) fun _ => rfl,
    withDefault?_record distinct integer, Json.bool?]
  rfl

theorem KindName.ofJson?_text (inner : Bool) (kind : KindName) :
    KindName.ofJson? inner (.string kind.text) = some kind := by
  show KindName.all.find? (·.text == kind.text) = some kind
  cases kind <;> decide

/-- The kind of a record is the one that stands first in it. -/
theorem kindFields?_record (inner : Bool) (kind : KindName) (fields : List (String × Option Json)) :
    kindFields? inner (record (("type", some (.string kind.text)) :: fields)) =
      some (kind, .named (presentFields (("type", some (.string kind.text)) :: fields))) := by
  have written : (Fields.named (presentFields (("type", some (.string kind.text)) :: fields))).get?
      0 "type" = some (.string kind.text) := rfl
  rw [kindFields?, ofJson?_record]
  simp only [written, Option.bind_some, KindName.ofJson?_text]

end Fields

section Reading

variable {inner : Bool} {value inside : Json} {fields : Fields} {items : List Json}

theorem readKind?_string (named : kindFields? inner value = some (.string, fields)) :
    readKind? inner value = (StringFacets.ofFields? 1 fields).map .string := by
  rw [readKind?]
  split <;> simp_all

theorem readKind?_number (named : kindFields? inner value = some (.number, fields)) :
    readKind? inner value = (NumberFacets.ofFields? 1 fields).map .number := by
  rw [readKind?]
  split <;> simp_all

theorem readKind?_boolean (named : kindFields? inner value = some (.boolean, fields)) :
    readKind? inner value = some .boolean := by
  rw [readKind?]
  split <;> simp_all

theorem readKind?_null (named : kindFields? inner value = some (.null, fields)) :
    readKind? inner value = some .null := by
  rw [readKind?]
  split <;> simp_all

theorem readKind?_object {required : List String}
    (named : kindFields? inner value = some (.object, fields))
    (properties : fields.get? 1 "properties" = some (.array items))
    (names : fields.withDefault? 2 "required" [] strings? = some required) :
    readKind? inner value =
      (readProperties? items).map fun properties => .object properties (.ofList required) := by
  rw [readKind?]
  split <;> simp_all
  split <;> simp_all

theorem readKind?_record (named : kindFields? inner value = some (.record, fields))
    (found : fields.get? 1 "value" = some inside) :
    readKind? inner value = (read? true inside).map .record := by
  rw [readKind?]
  split <;> simp_all
  split <;> simp_all

theorem readKind?_array_of_none (named : kindFields? inner value = some (.array, fields))
    (found : fields.get? 1 "items" = none) : readKind? inner value = some (.array none) := by
  rw [readKind?]
  split <;> simp_all
  split <;> simp_all

theorem readKind?_array_of_some (named : kindFields? inner value = some (.array, fields))
    (found : fields.get? 1 "items" = some inside) (schema : inside ≠ .null) :
    readKind? inner value = (read? true inside).map fun items => .array (some items) := by
  rw [readKind?]
  split <;> simp_all
  split <;> simp_all

theorem readKind?_oneOf {discriminator : Option String}
    (named : kindFields? inner value = some (.oneOf, fields))
    (branches : fields.get? 1 "branches" = some (.array items))
    (property : fields.optional? 2 "discriminator" Json.string? = some discriminator) :
    readKind? inner value =
      (readBranches? items).map fun branches => .oneOf branches discriminator := by
  rw [readKind?]
  split <;> simp_all
  split <;> simp_all

theorem readKind?_ref {target : String} (named : kindFields? inner value = some (.ref, fields))
    (found : fields.get? 1 "target" = some (.string target)) :
    readKind? inner value = some (.ref target) := by
  rw [readKind?]
  split <;> simp_all [Json.string?]

theorem read?_of_fields {kind : Kind Schema} {metadata : Metadata}
    (read : Fields.ofJson? 2 value = some fields) (found : fields.get? 0 "kind" = some inside)
    (kindRead : readKind? inner inside = some kind)
    (metadataRead : fields.withDefault? 1 "metadata" {} Metadata.ofJson? = some metadata) :
    read? inner value = some ⟨kind, metadata⟩ := by
  rw [read?]
  split <;> simp_all
  split <;> simp_all

theorem readProperties?_cons {item : Json} {rest : List Json} {name : String} {schema : Schema}
    {properties : List (Property Schema)} (read : Fields.ofJson? 2 item = some fields)
    (named : fields.get? 0 "name" = some (.string name))
    (found : fields.get? 1 "schema" = some inside) (schemaRead : read? true inside = some schema)
    (later : readProperties? rest = some properties) :
    readProperties? (item :: rest) = some (⟨name, schema⟩ :: properties) := by
  rw [readProperties?]
  split <;> simp_all
  split <;> simp_all [Json.string?]

end Reading

section RoundTrip

theorem readProperties?_propertiesToJson {properties : List (Property Schema)}
    (each : ∀ property ∈ properties,
      read? true property.schema.toJson = some property.schema.withoutNulls) :
    readProperties? (propertiesToJson properties) =
      some (properties.map fun property => ⟨property.name, property.schema.withoutNulls⟩) := by
  induction properties with
  | nil => rw [propertiesToJson, readProperties?, List.map_nil]
  | cons property rest ih =>
    obtain ⟨first, others⟩ := List.forall_mem_cons.1 each
    have distinct : ([("name", some (Json.string property.name)),
        ("schema", some property.schema.toJson)].map Prod.fst).Nodup := by simp
    rw [propertiesToJson]
    exact readProperties?_cons (ofJson?_record 2 _) (get?_record distinct rfl)
      (get?_record distinct rfl) first (ih others)

theorem readBranches?_branchesToJson {branches : List Schema}
    (each : ∀ branch ∈ branches, read? true branch.toJson = some branch.withoutNulls) :
    readBranches? (branchesToJson branches) = some (branches.map withoutNulls) := by
  induction branches with
  | nil => rw [branchesToJson, readBranches?, List.map_nil]
  | cons branch rest ih =>
    obtain ⟨first, others⟩ := List.forall_mem_cons.1 each
    rw [branchesToJson, readBranches?, first, ih others, List.map_cons]

theorem ofList_toList (names : NameSet) : NameSet.ofList names.toList = names :=
  NameSet.ext_mem fun _ => NameSet.mem_ofList

theorem toJson_ne_null (schema : Schema) : schema.toJson ≠ .null := by
  obtain ⟨kind, metadata⟩ := schema
  rw [toJson, record_eq]
  exact Json.noConfusion

/-- A kind is read back from its written form if the schemas that it is made of are. -/
theorem readKind?_kindToJson (inner : Bool) {kind : Kind Schema}
    (each : ∀ part ∈ kind.parts, read? true part.toJson = some part.withoutNulls) :
    readKind? inner (kindToJson kind) = some (kind.map withoutNulls) := by
  cases kind with
  | string facets =>
    rw [kindToJson]
    refine (readKind?_string (kindFields?_record inner .string _)).trans ?_
    exact congrArg (Option.map Kind.string)
      (StringFacets.ofFields?_record (by simp) rfl rfl rfl rfl rfl)
  | number facets =>
    rw [kindToJson]
    refine (readKind?_number (kindFields?_record inner .number _)).trans ?_
    exact congrArg (Option.map Kind.number) (NumberFacets.ofFields?_record (by simp) rfl rfl rfl)
  | boolean =>
    rw [kindToJson]
    exact readKind?_boolean (kindFields?_record inner .boolean _)
  | null =>
    rw [kindToJson]
    exact readKind?_null (kindFields?_record inner .null _)
  | object properties required =>
    have read := readProperties?_propertiesToJson (List.forall_mem_map.1 each)
    rw [kindToJson]
    refine (readKind?_object (kindFields?_record inner .object _) (get?_record (by simp) rfl)
      ((withDefault?_record (by simp) rfl).trans (strings?_strings required.toList))).trans ?_
    rw [read, ofList_toList, Option.map_some, Kind.map]
  | record value =>
    have read := each value (List.mem_singleton.2 rfl)
    rw [kindToJson]
    refine (readKind?_record (kindFields?_record inner .record _)
      (get?_record (by simp) rfl)).trans ?_
    rw [read, Option.map_some, Kind.map]
  | array items =>
    cases items with
    | none =>
      rw [kindToJson]
      exact readKind?_array_of_none (kindFields?_record inner .array _) rfl
    | some items =>
      have read := each items (Option.mem_toList.2 rfl)
      rw [kindToJson]
      refine (readKind?_array_of_some (kindFields?_record inner .array _)
        (get?_record (by simp) rfl) (toJson_ne_null items)).trans ?_
      rw [read, Option.map_some, Kind.map, Option.map_some]
  | oneOf branches discriminator =>
    have read : readBranches? (branchesToJson branches) = some (branches.map withoutNulls) :=
      readBranches?_branchesToJson each
    rw [kindToJson]
    refine (readKind?_oneOf (kindFields?_record inner .oneOf _) (get?_record (by simp) rfl)
      (optional?_record Json.string? (by simp) rfl (by simp) fun _ => rfl)).trans ?_
    rw [read, Option.map_some, Kind.map]
  | ref target =>
    rw [kindToJson]
    exact readKind?_ref (kindFields?_record inner .ref _) (get?_record (by simp) rfl)

/-- A schema is read back from its written form but for examples and default values `null`. -/
theorem read?_toJson (inner : Bool) (schema : Schema) :
    read? inner schema.toJson = some schema.withoutNulls := by
  induction schema using forall_of_parts generalizing inner with
  | step kind metadata ih =>
    have distinct : ([("kind", some (kindToJson kind)),
        ("metadata", some metadata.toJson)].map Prod.fst).Nodup := by simp
    rw [toJson, withoutNulls_mk]
    exact read?_of_fields (ofJson?_record 2 _) (get?_record distinct rfl)
      (readKind?_kindToJson inner fun part member => ih part member true)
      ((withDefault?_record distinct rfl).trans metadata.ofJson?_toJson)

theorem ofJson?_toJson (schema : Schema) : ofJson? schema.toJson = some schema.withoutNulls :=
  read?_toJson false schema

end RoundTrip

section Texts

/-- Metadata whose values are such as documents hold. -/
structure Metadata.IsProper (metadata : Metadata) : Prop where
  example? : ∀ value, metadata.example? = some value → value.IsProper
  default? : ∀ value, metadata.default? = some value → value.IsProper

/-- The lengths that a kind of strings asks for keep their exact values. -/
def Kind.HasExactLengths {σ : Type} : Kind σ → Prop
  | .string facets =>
    (∀ n, facets.minLength = some n → Json.Number.isExact n) ∧
      ∀ n, facets.maxLength = some n → Json.Number.isExact n
  | _ => True

/-- A schema as documents describe them. -/
inductive IsProper : Schema → Prop where
  | mk {kind : Kind Schema} {metadata : Metadata} (lengths : kind.HasExactLengths)
      (said : metadata.IsProper) (parts : ∀ part ∈ kind.parts, IsProper part) :
      IsProper ⟨kind, metadata⟩

theorem isProper_record {fields : List (String × Option Json)}
    (distinct : (fields.map Prod.fst).Nodup)
    (each : ∀ field ∈ fields, ∀ value, field.2 = some value → value.IsProper) :
    (record fields).IsProper := by
  rw [record_eq, Json.isProper_object_iff]
  constructor
  · exact distinct.sublist (sublist_map_fst_presentFields fields)
  · intro member present
    obtain ⟨field, listed, found⟩ := List.mem_filterMap.1 present
    obtain ⟨value, written, rfl⟩ := Option.map_eq_some_iff.1 found
    exact each field listed value written

theorem isProper_strings (texts : List String) : (strings texts).IsProper := by
  rw [strings, Json.isProper_array_iff]
  intro item listed
  obtain ⟨text, -, rfl⟩ := List.mem_map.1 listed
  exact .string

theorem Metadata.IsProper.toJson {metadata : Metadata} (proper : metadata.IsProper) :
    metadata.toJson.IsProper :=
  isProper_record (by simp) (by simpa using ⟨proper.example?, proper.default?⟩)

theorem mem_propertiesToJson {properties : List (Property Schema)} {item : Json} :
    item ∈ propertiesToJson properties ↔ ∃ property ∈ properties,
      record [("name", some (.string property.name)), ("schema", some property.schema.toJson)] =
        item := by
  induction properties with
  | nil => simp [propertiesToJson]
  | cons property rest ih => simp [propertiesToJson, ih, eq_comm]

theorem branchesToJson_eq_map (branches : List Schema) :
    branchesToJson branches = branches.map toJson := by
  induction branches with
  | nil => rw [branchesToJson, List.map_nil]
  | cons branch rest ih => rw [branchesToJson, ih, List.map_cons]

theorem isProper_kindToJson {kind : Kind Schema} (lengths : kind.HasExactLengths)
    (parts : ∀ part ∈ kind.parts, part.toJson.IsProper) : (kindToJson kind).IsProper := by
  cases kind with
  | string facets =>
    obtain ⟨minLength, maxLength⟩ := lengths
    have natural {n : Nat} (exactNatural : Json.Number.isExact n) : (natural n).IsProper :=
      .integer exactNatural
    rw [kindToJson]
    refine isProper_record (by simp) ?_
    simpa using ⟨fun _ => isProper_strings facets.literals,
      fun n asked => natural (minLength n asked), fun n asked => natural (maxLength n asked)⟩
  | number facets =>
    rw [kindToJson]
    exact isProper_record (by simp) (by simp [real])
  | object properties required =>
    have each : ∀ item ∈ propertiesToJson properties, item.IsProper := by
      intro item written
      obtain ⟨property, declared, rfl⟩ := mem_propertiesToJson.1 written
      exact isProper_record (by simp) (by simpa using parts _ (List.mem_map_of_mem declared))
    rw [kindToJson]
    exact isProper_record (by simp) (by simpa using ⟨each, isProper_strings required.toList⟩)
  | array items =>
    cases items <;> rw [kindToJson]
    · exact isProper_record (by simp) (by simp)
    · exact isProper_record (by simp) (by simpa using parts _ (Option.mem_toList.2 rfl))
  | record value =>
    rw [kindToJson]
    exact isProper_record (by simp) (by simpa using parts _ (List.mem_singleton.2 rfl))
  | oneOf branches discriminator =>
    have each : ∀ branch ∈ branches, branch.toJson.IsProper := parts
    rw [kindToJson]
    exact isProper_record (by simp) (by simpa [branchesToJson_eq_map] using each)
  | _ =>
    rw [kindToJson]
    exact isProper_record (by simp) (by simp)

theorem IsProper.toJson {schema : Schema} (proper : schema.IsProper) : schema.toJson.IsProper := by
  induction proper with
  | mk lengths said _ ih =>
    rw [Schema.toJson]
    exact isProper_record (by simp) (by simpa using ⟨isProper_kindToJson lengths ih, said.toJson⟩)

/-- The schema that a text is read as, whose containers nest at most `limit` deep. -/
def ofText? (limit : Nat) (text : String) : Option Schema :=
  (Json.parseWithin? limit text).bind ofJson?

/-- A schema is read back from its text, unless that nests too deep, but for examples and default
values `null`. -/
theorem ofText?_text {schema : Schema} (proper : schema.IsProper) (limit : Nat) :
    ofText? limit schema.text =
      if schema.toJson.depth ≤ limit then some schema.withoutNulls else none := by
  rw [ofText?, text, Json.parseWithin?_text proper.toJson]
  split
  · exact ofJson?_toJson schema
  · rfl

end Texts

end ZodModules.Schema
