import ZodModules.Proofs.OpenApi.Conversion
import ZodModules.Proofs.OpenApi.ExactUsage
import ZodModules.Proofs.OpenApi.References
import ZodModules.Proofs.Schema.RoundTrip

/-!
# Converted schemas as text

What a value converts to can be written as text and read back. Only an example or a default value
`null` does not come back, and a text that nests too deep is not read at all.
-/

namespace ZodModules.OpenApi

open Schema (Kind Property Metadata)

section Conversion

variable {components : Components} {merging : NameSet} {value : Json}

theorem isProper_ofKind {kind : Kind Schema} (lengths : kind.HasExactLengths)
    (parts : ∀ part ∈ kind.parts, part.IsProper) : (Schema.ofKind kind).IsProper := by
  refine .mk lengths ⟨?_, ?_⟩ parts
  · intro value impossible
    cases impossible
  · intro value impossible
    cases impossible

theorem isProper_of_parts_eq_nil {kind : Kind Schema} (lengths : kind.HasExactLengths)
    (leaf : kind.parts = []) : (Schema.ofKind kind).IsProper := by
  refine isProper_ofKind lengths ?_
  rw [leaf]
  exact List.forall_mem_nil _

theorem isProper_emptyObject : emptyObject.IsProper := isProper_of_parts_eq_nil trivial rfl

theorem isProper_string (proper : value.IsProper) :
    (Schema.ofKind (.string (stringFacets value))).IsProper :=
  isProper_of_parts_eq_nil
    ⟨fun _ => proper.isExact_of_member, fun _ => proper.isExact_of_member⟩ rfl

theorem isProper_addMetadata {schema : Schema} (proper : value.IsProper) (own : schema.IsProper) :
    (addMetadata value schema).IsProper := by
  cases own with
  | mk lengths said parts =>
    refine .mk lengths ⟨fun given found => ?_, fun given found => ?_⟩ parts
    · rcases Option.or_eq_some_iff.1 found with new | ⟨-, old⟩
      · exact proper.of_get? new
      · exact said.example? given old
    · rcases Option.or_eq_some_iff.1 found with new | ⟨-, old⟩
      · exact proper.of_get? new
      · exact said.default? given old

theorem isProper_unionOf {branches : List Schema} {discriminator : Option String}
    (each : ∀ branch ∈ branches, branch.IsProper) : (unionOf discriminator branches).IsProper := by
  unfold unionOf
  split
  · exact each _ List.mem_cons_self
  · exact isProper_ofKind trivial each

theorem isProper_object {properties : List (Property Schema)} {required : NameSet}
    (each : ∀ property ∈ properties, property.schema.IsProper) :
    (Schema.ofKind (.object properties required)).IsProper :=
  isProper_ofKind trivial (List.forall_mem_map.2 each)

theorem isProper_of_declared {schema : Schema} {properties : List (Property Schema)}
    {property : Property Schema} (own : schema.IsProper)
    (object : schema.declared? = some properties) (declared : property ∈ properties) :
    property.schema.IsProper := by
  cases own with
  | @mk kind metadata _ _ parts =>
    cases kind with
    | object own required =>
      cases object
      exact parts _ (List.mem_map_of_mem declared)
    | _ => cases object

theorem isProper_mergeObjects {members : List Schema} (each : ∀ member ∈ members, member.IsProper) :
    (Schema.ofKind (mergeObjects members)).IsProper := by
  rw [mergeObjects_eq]
  refine isProper_object fun property declared => ?_
  rcases exists_member_of_mem_merged declared with
    impossible | ⟨member, listed, properties, object, own⟩
  · cases impossible
  · exact isProper_of_declared (each member listed) object own

theorem isProper_of_mem_propertiesOf {name : String} {part : Json} (proper : value.IsProper)
    (declared : (name, part) ∈ propertiesOf value) : part.IsProper := by
  unfold propertiesOf at declared
  split at declared
  · rename_i found
    exact (Json.isProper_object_iff.1 (proper.of_get? found)).2 _ declared
  · cases declared

theorem isProper_convertMembers {members : List Json}
    (each : ∀ member ∈ members, (convertWithin components merging member).IsProper)
    (outer : ∀ name component, components.lookup name = some component →
      merging.contains name = false →
      (convertWithin components (merging.insert name) component).IsProper) :
    ∀ schema ∈ convertMembers components merging members, schema.IsProper := by
  intro schema converted
  rcases mem_convertMembers converted with
    ⟨member, listed, rfl⟩ | ⟨name, component, found, notMerging, rfl⟩
  · exact each member listed
  · exact outer name component found notMerging

section Parts

variable (proper : value.IsProper)
  (ih : ∀ part, sizeOf part < sizeOf value → part.IsProper →
    (convertWithin components merging part).IsProper)

include proper ih

theorem isProper_convertTyped_object : (convertTyped components merging "object" value).IsProper := by
  have object : (Schema.ofKind (.object (declaredProperties components merging value)
      (requiredNames value))).IsProper := by
    rw [declaredProperties_eq_map]
    refine isProper_object (List.forall_mem_map.2 fun ⟨name, part⟩ declared => ?_)
    exact ih part (sizeOf_lt_of_mem_propertiesOf declared)
      (isProper_of_mem_propertiesOf proper declared)
  rw [convertTyped_of_object]
  split
  · rename_i entries found
    split
    · have converted := ih entries (Json.sizeOf_lt_of_get? found) (proper.of_get? found)
      exact isProper_ofKind trivial (List.forall_mem_singleton.2 converted)
    · exact object
  · exact object

theorem isProper_convertTyped_array : (convertTyped components merging "array" value).IsProper := by
  rw [convertTyped_of_array]
  refine isProper_ofKind trivial fun part member => ?_
  obtain ⟨items, found, rfl⟩ := Option.map_eq_some_iff.1 (Option.mem_toList.1 member)
  exact ih items (Json.sizeOf_lt_of_get? found) (proper.of_get? found)

theorem isProper_convertTyped (type : String) :
    (convertTyped components merging type value).IsProper := by
  by_cases object : type = "object"
  · rw [object]
    exact isProper_convertTyped_object proper ih
  · by_cases array : type = "array"
    · rw [array]
      exact isProper_convertTyped_array proper ih
    · rw [convertTyped, if_neg array, if_neg object]
      split
      · exact isProper_string proper
      · split
        · exact isProper_of_parts_eq_nil trivial rfl
        · split
          · exact isProper_of_parts_eq_nil trivial rfl
          · split
            · exact isProper_of_parts_eq_nil trivial rfl
            · exact isProper_emptyObject

theorem isProper_convertPlain : (convertPlain components merging value).IsProper := by
  have typed (type : String) : (convertTyped components merging type value).IsProper :=
    isProper_convertTyped proper ih type
  unfold convertPlain
  split
  · split
    · exact isProper_of_parts_eq_nil trivial rfl
    · split
      · exact typed "object"
      · split
        · exact typed "array"
        · split
          · exact isProper_string proper
          · exact isProper_emptyObject
  · exact typed _
  · exact isProper_ofKind trivial (List.forall_mem_map.2 fun type _ => typed type)

theorem isProper_convertForm
    (outer : ∀ name component, components.lookup name = some component →
      merging.contains name = false →
      (convertWithin components (merging.insert name) component).IsProper) :
    ((Form.of value).convert components merging value).IsProper := by
  have items {key : String} {items : List Json} (found : value.get? key = some (.array items)) :
      ∀ item ∈ items, (convertWithin components merging item).IsProper := fun item listed =>
    ih item (sizeOf_lt_of_mem_get? found listed)
      (Json.isProper_array_iff.1 (proper.of_get? found) item listed)
  cases read : Form.of value with
  | reference reference => exact isProper_of_parts_eq_nil trivial rfl
  | union branches =>
    rw [Form.convert, convertAll_eq_map]
    refine isProper_unionOf (List.forall_mem_map.2 ?_)
    exact (Form.eq_union read).elim items items
  | composition members =>
    have each := items (Form.eq_composition read)
    rcases Form.convert_composition components merging value members with
      ⟨member, rfl, sole⟩ | ⟨-, merged⟩
    · rw [sole]
      exact each member List.mem_cons_self
    · rw [merged]
      exact isProper_mergeObjects (isProper_convertMembers each outer)
  | typed types => exact isProper_convertPlain proper ih

end Parts

/-- What a value converts to is such that it can be written and read back exactly. -/
theorem isProper_convertWithin (named : ∀ component ∈ components, component.2.IsProper)
    {merging : NameSet} {value : Json} (proper : value.IsProper) :
    (convertWithin components merging value).IsProper := by
  have ih (part : Json) (smaller : sizeOf part < sizeOf value) (proper : part.IsProper) :
      (convertWithin components merging part).IsProper := isProper_convertWithin named proper
  have outer (name : String) (component : Json) (found : components.lookup name = some component)
      (notMerging : merging.contains name = false) :
      (convertWithin components (merging.insert name) component).IsProper :=
    have := length_unmerged_insert_lt found notMerging
    isProper_convertWithin named (named _ (Json.mem_of_lookup found))
  rw [convertWithin]
  split
  · rw [convertObject_eq_form]
    exact isProper_addMetadata proper (isProper_convertForm proper ih outer)
  · exact isProper_emptyObject
termination_by ((unmerged components merging).length, sizeOf value)

end Conversion

section Documents

theorem isProper_components {content : Json} {listed : Components} (proper : content.IsProper)
    (found : components content = .ok listed) : (Json.object listed).IsProper := by
  unfold components at found
  split at found
  · cases found
  · split at found
    · cases found
      exact Json.isProper_object_iff.2 ⟨List.nodup_nil, List.forall_mem_nil _⟩
    · rename_i schemas
      cases found
      obtain ⟨outer, declared, inner⟩ := Option.bind_eq_some_iff.1 schemas
      exact (proper.of_get? declared).of_get? inner
    · cases found

/-- The schemas of a document are read back from their texts in the same way, whatever the text of
the document. -/
theorem registered_read_back {format : Format} {text : String} {content : Json}
    {document : Document} {name : String} {schema : Schema}
    (parsed : format.parse? text = some content) (loaded : Document.ofJson content = .ok document)
    (registered : document.registry.get? name = some schema) (limit : Nat) :
    Schema.ofText? limit schema.text =
      if schema.toJson.depth ≤ limit then some schema.withoutNulls else none := by
  obtain ⟨listed, found, same, -⟩ := exists_components_of_ofJson loaded
  have proper := isProper_components (isProper_of_parse? parsed) found
  obtain ⟨distinct, each⟩ := Json.isProper_object_iff.1 proper
  rw [same, get?_registryOf distinct] at registered
  obtain ⟨value, declared, rfl⟩ := Option.map_eq_some_iff.1 registered
  exact Schema.ofText?_text (isProper_convertWithin each (proper.of_get? declared)) limit

end Documents

section Accounts

/-- A name of at least three characters, with an example that is not just `null`. -/
def longName : Json := .object [
  ("type", .string "string"),
  ("minLength", .number (.integer 3)),
  ("example", .array [.null])]

/-- An account has a name. -/
def account : Json := .object [
  ("type", .string "object"),
  ("properties", .object [("name", longName)])]

end Accounts

end ZodModules.OpenApi
