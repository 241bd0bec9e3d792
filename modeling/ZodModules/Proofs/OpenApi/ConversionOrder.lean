import ZodModules.OpenApi.Document
import ZodModules.Proofs.Data.Listings
import ZodModules.Proofs.Json.KeyOrder
import ZodModules.Proofs.Registry.Closures
import Mathlib.Data.List.Nodup

/-!
# Conversion up to the order of keys

A schema object whose keys come in another order converts to a schema that refers to the same names:
its properties may come in another order, and nothing that is merged depends on that.
-/

namespace ZodModules

namespace Schema

/-- Two schemas refer to the same names. -/
def SameRefs (a b : Schema) : Prop := ∀ target, target ∈ a.refs ↔ target ∈ b.refs

/-- The properties that a schema declares, if it is an object. -/
def declared? (schema : Schema) : Option (List (Property Schema)) :=
  match schema.kind with
  | .object properties _ => some properties
  | _ => none

/-- Two lists of properties have the same names, each once, and refer to the same names under each. -/
structure SameProperties (properties others : List (Property Schema)) : Prop where
  nodup : (properties.map (·.name)).Nodup
  nodup' : (others.map (·.name)).Nodup
  names : ∀ name, name ∈ properties.map (·.name) ↔ name ∈ others.map (·.name)
  refs : ∀ property ∈ properties, ∀ other ∈ others, property.name = other.name →
    SameRefs property.schema other.schema

/-- Two schemas are objects that declare the same properties up to order, or refer to the same names
otherwise. -/
inductive Alike : Schema → Schema → Prop where
  | object {properties others : List (Property Schema)} {required required' : NameSet}
      {metadata metadata' : Metadata} (same : SameProperties properties others) :
      Alike ⟨.object properties required, metadata⟩ ⟨.object others required', metadata'⟩
  | other {a b : Schema} (first : a.declared? = none) (second : b.declared? = none)
      (same : SameRefs a b) : Alike a b

namespace SameProperties

variable {properties others more more' : List (Property Schema)}

theorem symm (same : SameProperties properties others) : SameProperties others properties where
  nodup := same.nodup'
  nodup' := same.nodup
  names name := (same.names name).symm
  refs other member property member' equal target :=
    (same.refs property member' other member equal.symm target).symm

theorem nil : SameProperties [] [] where
  nodup := List.nodup_nil
  nodup' := List.nodup_nil
  names _ := Iff.rfl
  refs _ member := nomatch member

/-- A property has its counterpart under the same name. -/
theorem exists_other (same : SameProperties properties others) {property : Property Schema}
    (member : property ∈ properties) :
    ∃ other ∈ others, other.name = property.name ∧ SameRefs property.schema other.schema := by
  have listed := (same.names property.name).1 (List.mem_map_of_mem member)
  obtain ⟨other, member', equal⟩ := List.mem_map.1 listed
  exact ⟨other, member', equal, same.refs property member other member' equal.symm⟩

theorem isEmpty_eq (same : SameProperties properties others) :
    properties.isEmpty = others.isEmpty := by
  have lead {properties others : List (Property Schema)} (same : SameProperties properties others)
      (empty : others = []) : properties = [] := by
    rw [List.eq_nil_iff_forall_not_mem]
    intro property member
    obtain ⟨other, member', -⟩ := same.exists_other member
    rw [empty] at member'
    cases member'
  rw [Bool.eq_iff_iff, List.isEmpty_iff, List.isEmpty_iff]
  exact ⟨lead same.symm, lead same⟩

theorem sameRefs (same : SameProperties properties others) {required required' : NameSet}
    {metadata metadata' : Metadata} :
    SameRefs ⟨.object properties required, metadata⟩ ⟨.object others required', metadata'⟩ := by
  have lead {properties others : List (Property Schema)} (same : SameProperties properties others)
      {target : String} (cited : target ∈ propertyRefs properties) :
      target ∈ propertyRefs others := by
    obtain ⟨property, member, inside⟩ := mem_propertyRefs.1 cited
    obtain ⟨other, member', -, refs⟩ := same.exists_other member
    exact mem_propertyRefs.2 ⟨other, member', (refs target).1 inside⟩
  intro target
  rw [Schema.refs, Schema.refs]
  exact ⟨lead same, lead same.symm⟩

end SameProperties

theorem Alike.sameRefs {a b : Schema} (alike : Alike a b) : SameRefs a b := by
  cases alike with
  | object same => exact same.sameRefs
  | other _ _ same => exact same

theorem Alike.withMetadata {a b : Schema} (alike : Alike a b) (metadata metadata' : Metadata) :
    Alike ⟨a.kind, metadata⟩ ⟨b.kind, metadata'⟩ := by
  have kept {a : Schema} (metadata : Metadata) : (Schema.mk a.kind metadata).refs = a.refs := by
    obtain ⟨kind, own⟩ := a
    cases kind with
    | array items => cases items <;> simp [refs]
    | _ => simp [refs]
  cases alike with
  | object same => exact .object same
  | other first second same =>
    refine .other first second fun target => ?_
    rw [kept, kept]
    exact same target

theorem Alike.refl_of_value {schema : Schema} (value : schema.declared? = none) :
    Alike schema schema := .other value value fun _ => Iff.rfl

end Schema

namespace OpenApi

open Schema (Property SameRefs SameProperties Alike)

section Merging

theorem mem_redeclare {properties : List (Property Schema)} {property other : Property Schema} :
    other ∈ redeclare properties property ↔
      other ∈ properties ∧ other.name ≠ property.name ∨ other = property := by
  simp [redeclare]

/-- Of properties that are declared twice the later declarations stay. -/
theorem mem_foldl_redeclare {more properties : List (Property Schema)}
    (nodup : (more.map (·.name)).Nodup) {property : Property Schema} :
    property ∈ more.foldl redeclare properties ↔
      property ∈ more ∨ property ∈ properties ∧ property.name ∉ more.map (·.name) := by
  induction more generalizing properties with
  | nil => simp
  | cons first rest ih =>
    obtain ⟨fresh, nodup⟩ := List.nodup_cons.1 nodup
    rw [List.foldl_cons, ih nodup, mem_redeclare, List.map_cons, List.mem_cons, List.mem_cons,
      not_or]
    constructor
    · rintro (later | ⟨⟨earlier, different⟩ | rfl, unlisted⟩)
      · exact Or.inl (Or.inr later)
      · exact Or.inr ⟨earlier, different, unlisted⟩
      · exact Or.inl (Or.inl rfl)
    · rintro ((rfl | later) | ⟨earlier, different, unlisted⟩)
      · exact Or.inr ⟨Or.inr rfl, fresh⟩
      · exact Or.inl later
      · exact Or.inr ⟨Or.inl ⟨earlier, different⟩, unlisted⟩

theorem nodup_foldl_redeclare {more properties : List (Property Schema)}
    (nodup : (properties.map (·.name)).Nodup) :
    ((more.foldl redeclare properties).map (·.name)).Nodup := by
  induction more generalizing properties with
  | nil => exact nodup
  | cons first rest ih =>
    apply ih
    rw [redeclare, List.map_append, List.map_cons, List.map_nil, List.nodup_append]
    refine ⟨nodup.sublist (List.filter_sublist.map _), by simp, ?_⟩
    intro name member other only
    obtain ⟨property, kept, rfl⟩ := List.mem_map.1 member
    rw [List.mem_singleton.1 only]
    simpa using (List.mem_filter.1 kept).2

/-- Merging does not depend on the order in which properties are declared. -/
theorem sameProperties_merge {properties others more more' : List (Property Schema)}
    (same : SameProperties properties others) (later : SameProperties more more') :
    SameProperties (more.foldl redeclare properties) (more'.foldl redeclare others) := by
  have lead {properties others more more' : List (Property Schema)}
      (same : SameProperties properties others) (later : SameProperties more more')
      {property : Property Schema} (member : property ∈ more.foldl redeclare properties) :
      ∃ other ∈ more'.foldl redeclare others, other.name = property.name ∧
        SameRefs property.schema other.schema := by
    rcases (mem_foldl_redeclare later.nodup).1 member with newer | ⟨older, unlisted⟩
    · obtain ⟨other, member', equal, refs⟩ := later.exists_other newer
      exact ⟨other, (mem_foldl_redeclare later.nodup').2 (Or.inl member'), equal, refs⟩
    · obtain ⟨other, member', equal, refs⟩ := same.exists_other older
      have unlisted' : other.name ∉ more'.map (·.name) := by
        rw [equal, ← later.names]
        exact unlisted
      exact ⟨other, (mem_foldl_redeclare later.nodup').2 (Or.inr ⟨member', unlisted'⟩), equal, refs⟩
  have nodup' := @nodup_foldl_redeclare more' others same.nodup'
  refine ⟨nodup_foldl_redeclare same.nodup, nodup', ?_, ?_⟩
  · intro name
    constructor
    · intro listed
      obtain ⟨property, member, rfl⟩ := List.mem_map.1 listed
      obtain ⟨other, member', equal, -⟩ := lead same later member
      exact equal ▸ List.mem_map_of_mem member'
    · intro listed
      obtain ⟨property, member, rfl⟩ := List.mem_map.1 listed
      obtain ⟨other, member', equal, -⟩ := lead same.symm later.symm member
      exact equal ▸ List.mem_map_of_mem member'
  · intro property member other member' equal
    obtain ⟨found, inside, equal', refs⟩ := lead same later member
    rw [List.inj_on_of_nodup_map nodup' member' inside (equal.symm.trans equal'.symm)]
    exact refs

/-- Adds the properties of an object to those merged so far. -/
def mergeMember (merged : List (Property Schema) × NameSet) (member : Schema) :
    List (Property Schema) × NameSet :=
  match member.kind with
  | .object more moreRequired =>
    (more.foldl redeclare merged.1, NameSet.union merged.2 moreRequired)
  | _ => merged

theorem mergeObjects_eq (members : List Schema) :
    mergeObjects members =
      .object (members.foldl mergeMember ([], ∅)).1 (members.foldl mergeMember ([], ∅)).2 := rfl

theorem mergeMember_of_value {member : Schema} (value : member.declared? = none)
    (merged : List (Property Schema) × NameSet) : mergeMember merged member = merged := by
  obtain ⟨kind, metadata⟩ := member
  cases kind with
  | object properties required => cases value
  | _ => rfl

/-- Compositions of members that are alike are alike. -/
theorem alike_mergeObjects {members others : List Schema} (alike : List.Forall₂ Alike members others)
    (metadata metadata' : Schema.Metadata) :
    Alike ⟨mergeObjects members, metadata⟩ ⟨mergeObjects others, metadata'⟩ := by
  have step (merged merged' : List (Property Schema) × NameSet)
      (same : SameProperties merged.1 merged'.1) :
      SameProperties (members.foldl mergeMember merged).1 (others.foldl mergeMember merged').1 := by
    induction alike generalizing merged merged' with
    | nil => exact same
    | cons first _ ih =>
      apply ih
      cases first with
      | object later => exact sameProperties_merge same later
      | other value value' _ =>
        rw [mergeMember_of_value value, mergeMember_of_value value']
        exact same
  rw [mergeObjects_eq, mergeObjects_eq]
  exact .object (step _ _ .nil)

end Merging

section Conversion

variable {components components' : Components} {merging : NameSet}

theorem convertAll_eq_map (values : List Json) :
    convertAll components merging values = values.map (convertWithin components merging) := by
  induction values with
  | nil => rw [convertAll, List.map_nil]
  | cons value rest ih => rw [convertAll, ih, List.map_cons]

theorem convertProperties_eq_map (members : List (String × Json)) :
    convertProperties components merging members =
      members.map fun member => ⟨member.1, convertWithin components merging member.2⟩ := by
  induction members with
  | nil => rw [convertProperties, List.map_nil]
  | cons member rest ih => rw [convertProperties, ih, List.map_cons]

theorem mem_branchRefs_iff {branches branches' : List Schema}
    (alike : List.Forall₂ Alike branches branches') (target : String) :
    target ∈ Schema.branchRefs branches ↔ target ∈ Schema.branchRefs branches' := by
  induction alike with
  | nil => exact Iff.rfl
  | cons first _ ih =>
    rw [Schema.branchRefs, Schema.branchRefs, List.mem_append, List.mem_append, ih,
      first.sameRefs target]

theorem alike_oneOf {branches branches' : List Schema}
    (alike : List.Forall₂ Alike branches branches') (discriminator discriminator' : Option String) :
    Alike (.ofKind (.oneOf branches discriminator)) (.ofKind (.oneOf branches' discriminator')) := by
  refine .other rfl rfl fun target => ?_
  rw [Schema.ofKind, Schema.ofKind, Schema.refs, Schema.refs]
  exact mem_branchRefs_iff alike target

theorem alike_unionOf {branches branches' : List Schema}
    (alike : List.Forall₂ Alike branches branches') (discriminator discriminator' : Option String) :
    Alike (unionOf discriminator branches) (unionOf discriminator' branches') := by
  cases alike with
  | nil => exact alike_oneOf .nil _ _
  | cons first rest =>
    cases rest with
    | nil => exact first
    | cons second others => exact alike_oneOf (.cons first (.cons second others)) _ _

/-- The properties that a schema object declares. -/
def declaredProperties (components : Components) (merging : NameSet) (value : Json) :
    List (Property Schema) :=
  match value.get? "properties" with
  | some (.object members) => convertProperties components merging members
  | _ => []

theorem declaredProperties_of_object {value : Json} {members : List (String × Json)}
    (declared : value.get? "properties" = some (.object members)) :
    declaredProperties components merging value = convertProperties components merging members := by
  rw [declaredProperties, declared]

theorem declaredProperties_of_other {value : Json}
    (other : ∀ members, value.get? "properties" ≠ some (.object members)) :
    declaredProperties components merging value = [] := by
  unfold declaredProperties
  split
  · rename_i members declared
    exact absurd declared (other members)
  · rfl

theorem convertTyped_of_object (components : Components) (merging : NameSet) (value : Json) :
    convertTyped components merging "object" value =
      match value.get? "additionalProperties" with
      | some entries =>
        if (declaredProperties components merging value).isEmpty && entries.members?.isSome then
          .ofKind (.record (convertWithin components merging entries))
        else .ofKind (.object (declaredProperties components merging value) (requiredNames value))
      | none =>
        .ofKind (.object (declaredProperties components merging value) (requiredNames value)) := by
  rw [convertTyped]
  simp only [String.reduceEq, if_false, if_true]
  split
  · rename_i entries found
    rw [found]
    split
    · rename_i members declared
      rw [declaredProperties_of_object declared]
    · rename_i other
      rw [declaredProperties_of_other other]
  · rename_i missing
    rw [missing]
    split
    · rename_i members declared
      rw [declaredProperties_of_object declared]
    · rename_i other
      rw [declaredProperties_of_other other]

theorem convertTyped_of_array (components : Components) (merging : NameSet) (value : Json) :
    convertTyped components merging "array" value =
      .ofKind (.array ((value.get? "items").map (convertWithin components merging))) := by
  rw [convertTyped]
  simp only [String.reduceEq, if_false, if_true]
  split
  · rename_i items found
    rw [found]
    rfl
  · rename_i missing
    rw [missing]
    rfl

/-- What a schema object that is neither a reference nor composed converts to. -/
def convertPlain (components : Components) (merging : NameSet) (value : Json) : Schema :=
  match valueTypes value with
  | [] =>
    if declaresNull value then .ofKind .null
    else if (value.get? "properties").isSome || (value.get? "additionalProperties").isSome then
      convertTyped components merging "object" value
    else if (value.get? "items").isSome then convertTyped components merging "array" value
    else if (value.get? "enum").isSome then .ofKind (.string (stringFacets value))
    else emptyObject
  | [type] => convertTyped components merging type value
  | types =>
    .ofKind (.oneOf (types.map fun type => convertTyped components merging type value) none)

/-- What a schema object that is neither a reference nor a union converts to. -/
def convertComposed (components : Components) (merging : NameSet) (value : Json) : Schema :=
  match value.get? "allOf" with
  | some (.array [member]) => convertWithin components merging member
  | some (.array members) => .ofKind (mergeObjects (convertMembers components merging members))
  | _ => convertPlain components merging value

theorem convertObject_eq (components : Components) (merging : NameSet) (value : Json) :
    convertObject components merging value =
      match (value.get? "$ref").bind Json.string? with
      | some reference => .ofKind (.ref (refName reference))
      | none =>
        match (value.get? "oneOf").or (value.get? "anyOf") with
        | some (.array branches) =>
          unionOf (discriminator? value) (convertAll components merging branches)
        | _ => convertComposed components merging value := by
  rw [convertObject]
  cases (value.get? "$ref").bind Json.string? with
  | some reference => rfl
  | none =>
    dsimp only
    split
    · rename_i branches found
      rw [found]
    · rename_i plain
      have composed : (match (value.get? "oneOf").or (value.get? "anyOf") with
          | some (.array branches) =>
            unionOf (discriminator? value) (convertAll components merging branches)
          | _ => convertComposed components merging value) =
            convertComposed components merging value := by
        split
        · rename_i branches branched
          exact absurd branched (plain branches)
        · rfl
      rw [composed]
      unfold convertComposed
      split
      · rename_i member found
        rw [found]
      · rename_i members several found
        simp only [found]
      · rename_i single several
        show convertPlain components merging value = _
        split
        · rename_i member found
          exact absurd found (single member)
        · rename_i members _ found
          exact absurd found (several members)
        · rfl

/-- What a member of a composition converts to, unless it is left out. -/
def convertMember? (components : Components) (merging : NameSet) (member : Json) : Option Schema :=
  match (member.get? "$ref").bind Json.string? with
  | none => some (convertWithin components merging member)
  | some reference =>
    if merging.contains (refName reference) then none
    else (components.lookup (refName reference)).map
      (convertWithin components (merging.insert (refName reference)))

theorem convertMembers_eq_filterMap (members : List Json) :
    convertMembers components merging members =
      members.filterMap (convertMember? components merging) := by
  induction members with
  | nil => rw [convertMembers, List.filterMap_nil]
  | cons member rest ih =>
    rw [convertMembers, List.filterMap_cons, ← ih]
    unfold convertMember?
    cases (member.get? "$ref").bind Json.string? with
    | none => rfl
    | some reference =>
      dsimp only
      split
      · rename_i target found notMerging
        simp [found, notMerging]
      · rename_i other
        by_cases merged : merging.contains (refName reference)
        · simp only [merged, if_true]
        · cases found : components.lookup (refName reference) with
          | none => simp [merged]
          | some target => exact absurd (by simpa using merged) (other target found)

theorem declaredTypes_congr {value value' : Json} (same : value.Reordered value') :
    declaredTypes value = declaredTypes value' := by
  unfold declaredTypes
  rcases same.get?_cases "type" with ⟨missing, missing'⟩ | ⟨type, type', found, found', types⟩
  · rw [missing, missing']
  · rw [found, found']
    cases types with
    | array length each =>
      exact Json.Reordered.filterMap_string? (Json.Reordered.array length each).forall₂_items
    | _ => rfl

theorem valueTypes_congr {value value' : Json} (same : value.Reordered value') :
    valueTypes value = valueTypes value' := by
  rw [valueTypes, valueTypes, declaredTypes_congr same]

theorem declaresNull_congr {value value' : Json} (same : value.Reordered value') :
    declaresNull value = declaresNull value' := by
  rw [declaresNull, declaresNull, declaredTypes_congr same]

theorem alike_emptyObject : Alike emptyObject emptyObject := .object .nil

theorem alike_of_refs_eq_nil {a b : Schema} (first : a.declared? = none) (second : b.declared? = none)
    (uncited : a.refs = []) (uncited' : b.refs = []) : Alike a b :=
  .other first second fun target => by rw [uncited, uncited']

theorem alike_string (facets facets' : Schema.StringFacets) :
    Alike (.ofKind (.string facets)) (.ofKind (.string facets')) :=
  alike_of_refs_eq_nil rfl rfl (by simp [Schema.ofKind, Schema.refs])
    (by simp [Schema.ofKind, Schema.refs])

theorem alike_number (facets facets' : Schema.NumberFacets) :
    Alike (.ofKind (.number facets)) (.ofKind (.number facets')) :=
  alike_of_refs_eq_nil rfl rfl (by simp [Schema.ofKind, Schema.refs])
    (by simp [Schema.ofKind, Schema.refs])

/-- An item of an array in a value is smaller than the value. -/
theorem sizeOf_lt_of_mem_get? {value item : Json} {key : String} {items : List Json}
    (found : value.get? key = some (.array items)) (listed : item ∈ items) :
    sizeOf item < sizeOf value := by
  have := List.sizeOf_lt_of_mem listed
  have := Json.sizeOf_items_lt (Json.sizeOf_lt_of_get? found)
  omega

section Parts

variable {value value' : Json} (same : value.Reordered value')
  (ih : ∀ part part', sizeOf part < sizeOf value → part.Reordered part' →
    Alike (convertWithin components merging part) (convertWithin components' merging part'))

include same ih

theorem sameProperties_declaredProperties :
    SameProperties (declaredProperties components merging value)
      (declaredProperties components' merging value') := by
  rcases same.get?_cases "properties" with
    ⟨missing, missing'⟩ | ⟨properties, properties', found, found', inner⟩
  · rw [declaredProperties_of_other (by simp [missing]),
      declaredProperties_of_other (by simp [missing'])]
    exact .nil
  · cases inner with
    | @object members members' distinct keys each =>
      have names {components : Components} (members : List (String × Json)) :
          (convertProperties components merging members).map (·.name) = members.map Prod.fst := by
        rw [convertProperties_eq_map, List.map_map]
        rfl
      rw [declaredProperties_of_object found, declaredProperties_of_object found']
      refine ⟨?_, ?_, ?_, ?_⟩
      · rw [names]
        exact distinct
      · rw [names]
        exact keys.nodup_iff.1 distinct
      · intro name
        rw [names, names]
        exact keys.mem_iff
      · intro property member other member' equal
        rw [convertProperties_eq_map] at member member'
        obtain ⟨⟨key, inside⟩, declared, rfl⟩ := List.mem_map.1 member
        obtain ⟨⟨key', inside'⟩, declared', rfl⟩ := List.mem_map.1 member'
        obtain rfl : key = key' := equal
        have smaller : sizeOf inside < sizeOf value := by
          have := Json.sizeOf_lt_of_mem_members declared
          have := Json.sizeOf_members_lt (Json.sizeOf_lt_of_get? found)
          omega
        exact (ih inside inside' smaller (each key inside inside' declared declared')).sameRefs
    | _ =>
      rw [declaredProperties_of_other (by simp [found]),
        declaredProperties_of_other (by simp [found'])]
      exact .nil

theorem alike_convertTyped_object :
    Alike (convertTyped components merging "object" value)
      (convertTyped components' merging "object" value') := by
  have properties := sameProperties_declaredProperties same ih
  rw [convertTyped_of_object, convertTyped_of_object]
  rcases same.get?_cases "additionalProperties" with
    ⟨missing, missing'⟩ | ⟨entries, entries', found, found', inner⟩
  · rw [missing, missing']
    exact .object properties
  · rw [found, found']
    have empty : (declaredProperties components merging value).isEmpty =
        (declaredProperties components' merging value').isEmpty := properties.isEmpty_eq
    simp only [empty, inner.isSome_members?]
    split
    · have alike := ih entries entries' (Json.sizeOf_lt_of_get? found) inner
      refine .other rfl rfl fun target => ?_
      rw [Schema.ofKind, Schema.ofKind, Schema.refs, Schema.refs]
      exact alike.sameRefs target
    · exact .object properties

theorem alike_convertTyped_array :
    Alike (convertTyped components merging "array" value)
      (convertTyped components' merging "array" value') := by
  rw [convertTyped_of_array, convertTyped_of_array]
  rcases same.get?_cases "items" with ⟨missing, missing'⟩ | ⟨items, items', found, found', inner⟩
  · rw [missing, missing']
    exact .refl_of_value rfl
  · rw [found, found']
    have alike := ih items items' (Json.sizeOf_lt_of_get? found) inner
    refine .other rfl rfl fun target => ?_
    rw [Schema.ofKind, Schema.ofKind, Option.map_some, Option.map_some, Schema.refs, Schema.refs]
    exact alike.sameRefs target

theorem alike_convertTyped (type : String) :
    Alike (convertTyped components merging type value)
      (convertTyped components' merging type value') := by
  by_cases object : type = "object"
  · rw [object]
    exact alike_convertTyped_object same ih
  · by_cases array : type = "array"
    · rw [array]
      exact alike_convertTyped_array same ih
    · rw [convertTyped, convertTyped, if_neg array, if_neg array, if_neg object, if_neg object]
      split
      · exact alike_string _ _
      · split
        · exact alike_number _ _
        · split
          · exact alike_number _ _
          · split
            · exact .refl_of_value rfl
            · exact alike_emptyObject

theorem alike_convertPlain :
    Alike (convertPlain components merging value) (convertPlain components' merging value') := by
  have typed (type : String) : Alike (convertTyped components merging type value)
      (convertTyped components' merging type value') := alike_convertTyped same ih type
  unfold convertPlain
  rw [← valueTypes_congr same, ← declaresNull_congr same]
  simp only [← same.isSome_get?]
  split
  · split
    · exact .refl_of_value rfl
    · split
      · exact typed "object"
      · split
        · exact typed "array"
        · split
          · exact alike_string _ _
          · exact alike_emptyObject
  · exact typed _
  · apply alike_oneOf
    rw [List.forall₂_map_left_iff, List.forall₂_map_right_iff, List.forall₂_same]
    exact fun type _ => typed type

omit same in
/-- The conversions of items that are part of the value are alike. -/
theorem forall₂_convertWithin {items items' : List Json}
    (smaller : ∀ item ∈ items, sizeOf item < sizeOf value)
    (each : List.Forall₂ Json.Reordered items items') :
    List.Forall₂ (fun item item' => item.Reordered item' ∧
      Alike (convertWithin components merging item) (convertWithin components' merging item'))
      items items' := by
  refine ((List.forall₂_and_left items items').2 ⟨smaller, each⟩).imp ?_
  rintro item item' ⟨less, inner⟩
  exact ⟨inner, ih item item' less inner⟩

variable (named : (Json.object components).Reordered (.object components'))
  (outer : ∀ name target target', components.lookup name = some target →
    merging.contains name = false → target.Reordered target' →
      Alike (convertWithin components (merging.insert name) target)
        (convertWithin components' (merging.insert name) target'))

include named outer

omit same ih in
/-- A member of a composition is left out for either order of keys, or for none. -/
theorem alike_convertMember? {member member' : Json} (inner : member.Reordered member')
    (alike : Alike (convertWithin components merging member)
      (convertWithin components' merging member')) :
    (convertMember? components merging member = none ∧
        convertMember? components' merging member' = none) ∨
      ∃ schema schema', convertMember? components merging member = some schema ∧
        convertMember? components' merging member' = some schema' ∧ Alike schema schema' := by
  unfold convertMember?
  rw [← inner.string?_get? "$ref"]
  cases (member.get? "$ref").bind Json.string? with
  | none => exact Or.inr ⟨_, _, rfl, rfl, alike⟩
  | some reference =>
    by_cases merged : merging.contains (refName reference)
    · exact Or.inl ⟨if_pos merged, if_pos merged⟩
    · have notMerging : merging.contains (refName reference) = false := Bool.not_eq_true _ ▸ merged
      rcases named.get?_cases (refName reference) with
        ⟨missing, missing'⟩ | ⟨target, target', found, found', inner⟩
      · change components.lookup _ = _ at missing
        change components'.lookup _ = _ at missing'
        simp [merged, missing, missing']
      · change components.lookup _ = _ at found
        change components'.lookup _ = _ at found'
        refine Or.inr ⟨_, _, ?_, ?_, outer _ target target' found notMerging inner⟩
        · simp [notMerging, found]
        · simp [notMerging, found']

omit same in
theorem alike_convertMembers {members members' : List Json}
    (smaller : ∀ member ∈ members, sizeOf member < sizeOf value)
    (each : List.Forall₂ Json.Reordered members members') :
    List.Forall₂ Alike (convertMembers components merging members)
      (convertMembers components' merging members') := by
  rw [convertMembers_eq_filterMap, convertMembers_eq_filterMap]
  have both := forall₂_convertWithin ih smaller each
  clear smaller each
  induction both with
  | nil => exact .nil
  | cons first _ others =>
    obtain ⟨inner, alike⟩ := first
    rw [List.filterMap_cons, List.filterMap_cons]
    rcases alike_convertMember? named outer inner alike with
      ⟨left_out, left_out'⟩ | ⟨schema, schema', converted, converted', alike⟩
    · rw [left_out, left_out']
      exact others
    · rw [converted, converted']
      exact .cons alike others

theorem alike_convertComposed :
    Alike (convertComposed components merging value) (convertComposed components' merging value') := by
  have plain := alike_convertPlain same ih
  unfold convertComposed
  rcases same.get?_cases "allOf" with ⟨missing, missing'⟩ | ⟨all, all', found, found', inner⟩
  · rw [missing, missing']
    exact plain
  · rw [found, found']
    cases inner with
    | @array members members' length each =>
      have pairs := (Json.Reordered.array length each).forall₂_items
      have smaller : ∀ member ∈ members, sizeOf member < sizeOf value :=
        fun _ listed => sizeOf_lt_of_mem_get? found listed
      have merged := alike_mergeObjects (alike_convertMembers ih named outer smaller pairs) {} {}
      cases pairs with
      | nil => exact merged
      | cons first rest =>
        cases rest with
        | nil => exact ih _ _ (smaller _ List.mem_cons_self) first
        | cons second others => exact merged
    | _ => exact plain

theorem alike_convertObject :
    Alike (convertObject components merging value) (convertObject components' merging value') := by
  have composed := alike_convertComposed same ih named outer
  have union {key : String} {branches branches' : Json} (found : value.get? key = some branches)
      (inner : branches.Reordered branches') :
      Alike
        (match some branches with
        | some (.array branches) =>
          unionOf (discriminator? value) (convertAll components merging branches)
        | _ => convertComposed components merging value)
        (match some branches' with
        | some (.array branches) =>
          unionOf (discriminator? value') (convertAll components' merging branches)
        | _ => convertComposed components' merging value') := by
    cases inner with
    | @array items items' length each =>
      have smaller : ∀ item ∈ items, sizeOf item < sizeOf value :=
        fun _ listed => sizeOf_lt_of_mem_get? found listed
      have both := forall₂_convertWithin ih smaller (Json.Reordered.array length each).forall₂_items
      apply alike_unionOf
      rw [convertAll_eq_map, convertAll_eq_map, List.forall₂_map_left_iff,
        List.forall₂_map_right_iff]
      exact both.imp fun _ _ alike => alike.2
    | _ => exact composed
  rw [convertObject_eq, convertObject_eq, ← same.string?_get? "$ref"]
  cases (value.get? "$ref").bind Json.string? with
  | some reference => exact .refl_of_value rfl
  | none =>
    rcases same.get?_cases "oneOf" with ⟨missing, missing'⟩ | ⟨one, one', found, found', inner⟩
    · rw [missing, missing', Option.none_or, Option.none_or]
      rcases same.get?_cases "anyOf" with ⟨missing, missing'⟩ | ⟨any, any', found, found', inner⟩
      · rw [missing, missing']
        exact composed
      · rw [found, found']
        exact union found inner
    · rw [found, found', Option.some_or, Option.some_or]
      exact union found inner

end Parts

/-- A value whose keys come in another order converts to a schema that is alike. -/
theorem alike_convertWithin (named : (Json.object components).Reordered (.object components'))
    {merging : NameSet} {value value' : Json} (same : value.Reordered value') :
    Alike (convertWithin components merging value) (convertWithin components' merging value') := by
  have ih (part part' : Json) (smaller : sizeOf part < sizeOf value)
      (inner : part.Reordered part') :
      Alike (convertWithin components merging part) (convertWithin components' merging part') :=
    alike_convertWithin named inner
  have outer (name : String) (target target' : Json)
      (found : components.lookup name = some target) (notMerging : merging.contains name = false)
      (inner : target.Reordered target') :
      Alike (convertWithin components (merging.insert name) target)
        (convertWithin components' (merging.insert name) target') :=
    have := length_unmerged_insert_lt found notMerging
    alike_convertWithin named inner
  rw [convertWithin, convertWithin]
  cases same with
  | object distinct keys each =>
    exact (alike_convertObject (.object distinct keys each) ih named outer).withMetadata _ _
  | _ => exact alike_emptyObject
termination_by ((unmerged components merging).length, sizeOf value)

end Conversion

end OpenApi

end ZodModules
