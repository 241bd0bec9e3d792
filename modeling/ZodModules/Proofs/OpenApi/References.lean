import ZodModules.Proofs.OpenApi.ConversionOrder

/-!
# The references of schema objects

One keyword decides how a schema object is read: as a reference, a union, a composition or a value
of some types. Its parts are the schema objects in the places that this reading looks at. What a
schema refers to stands in such a place of the object that it comes from, or of a component that is
merged into it; and of the references in those places the conversion keeps all but those of members
of a composition that are left out or declared again.
-/

namespace ZodModules.OpenApi

open Schema (Property Cites)

variable {components : Components} {merging : NameSet} {value part : Json} {target reference : String}

/-- How a schema object is read. -/
inductive Form where
  | reference (reference : String)
  | union (branches : List Json)
  | composition (members : List Json)
  | typed (types : List String)

/-- The types that a schema object is one of; if it declares none, its other keywords tell. -/
def typesOf (value : Json) : List String :=
  match valueTypes value with
  | [] =>
    if declaresNull value then []
    else if (value.get? "properties").isSome || (value.get? "additionalProperties").isSome then
      ["object"]
    else if (value.get? "items").isSome then ["array"]
    else []
  | types => types

/-- How a schema object is read: the first keyword that is used as it should be decides. -/
def Form.of (value : Json) : Form :=
  match (value.get? "$ref").bind Json.string? with
  | some reference => .reference reference
  | none =>
    match (value.get? "oneOf").or (value.get? "anyOf") with
    | some (.array branches) => .union branches
    | _ =>
      match value.get? "allOf" with
      | some (.array members) => .composition members
      | _ => .typed (typesOf value)

/-- The properties that a schema object declares. -/
def propertiesOf (value : Json) : List (String × Json) :=
  match value.get? "properties" with
  | some (.object properties) => properties
  | _ => []

/-- A part of a schema object stands in the place of a schema. -/
inductive Part (value : Json) : Json → Prop where
  | branch {branches : List Json} {part : Json} (read : Form.of value = .union branches)
      (listed : part ∈ branches) : Part value part
  | member {members : List Json} {part : Json} (read : Form.of value = .composition members)
      (listed : part ∈ members) : Part value part
  | property {types : List String} {name : String} {part : Json}
      (read : Form.of value = .typed types) (typed : "object" ∈ types)
      (declared : (name, part) ∈ propertiesOf value) : Part value part
  /-- What all other properties are is asked only if none is declared. -/
  | entries {types : List String} {part : Json}
      (read : Form.of value = .typed types) (typed : "object" ∈ types)
      (undeclared : propertiesOf value = []) (found : value.get? "additionalProperties" = some part)
      (shaped : part.members?.isSome) : Part value part
  | items {types : List String} {part : Json}
      (read : Form.of value = .typed types) (typed : "array" ∈ types)
      (found : value.get? "items" = some part) : Part value part

/-- A schema object holds a reference: it is read as that reference, or one of its parts holds it. -/
inductive Holds (reference : String) : Json → Prop where
  | here {value : Json} (read : Form.of value = .reference reference) : Holds reference value
  | inside {value part : Json} (place : Part value part) (held : Holds reference part) :
      Holds reference value

/-! ## What a conversion cites -/

theorem cites_of_kind_eq {schema other : Schema} (same : schema.kind = other.kind)
    (cited : Cites target schema) : Cites target other := by
  obtain ⟨kind, metadata⟩ := other
  subst same
  cases cited with
  | ref => exact .ref
  | property declared cited => exact .property declared cited
  | value cited => exact .value cited
  | items cited => exact .items cited
  | branch declared cited => exact .branch declared cited

theorem cites_congr {schema other : Schema} (same : schema.kind = other.kind) :
    Cites target schema ↔ Cites target other :=
  ⟨cites_of_kind_eq same, cites_of_kind_eq same.symm⟩

theorem not_cites_emptyObject : ¬ Cites target emptyObject := by
  intro cited
  cases cited with
  | property declared _ => cases declared

theorem cites_oneOf_iff {branches : List Schema} {discriminator : Option String} :
    Cites target (.ofKind (.oneOf branches discriminator)) ↔
      ∃ branch ∈ branches, Cites target branch := by
  constructor
  · intro cited
    cases cited with
    | branch listed cited => exact ⟨_, listed, cited⟩
  · rintro ⟨branch, listed, cited⟩
    exact .branch listed cited

theorem cites_object_iff {properties : List (Property Schema)} {required : NameSet} :
    Cites target (.ofKind (.object properties required)) ↔
      ∃ property ∈ properties, Cites target property.schema := by
  constructor
  · intro cited
    cases cited with
    | property declared cited => exact ⟨_, declared, cited⟩
  · rintro ⟨property, declared, cited⟩
    exact .property declared cited

theorem cites_unionOf_iff {branches : List Schema} {discriminator : Option String} :
    Cites target (unionOf discriminator branches) ↔ ∃ branch ∈ branches, Cites target branch := by
  unfold unionOf
  split
  · simp
  · exact cites_oneOf_iff

theorem cites_convertTyped_array_iff :
    Cites target (convertTyped components merging "array" value) ↔
      ∃ items, value.get? "items" = some items ∧
        Cites target (convertWithin components merging items) := by
  rw [convertTyped_of_array]
  cases value.get? "items" with
  | none => exact ⟨nofun, nofun⟩
  | some items =>
    constructor
    · intro cited
      cases cited with
      | items cited => exact ⟨items, rfl, cited⟩
    · rintro ⟨_, same, cited⟩
      cases same
      exact .items cited

theorem declaredProperties_eq_map :
    declaredProperties components merging value = (propertiesOf value).map fun property =>
      ⟨property.1, convertWithin components merging property.2⟩ := by
  unfold declaredProperties propertiesOf
  cases value.get? "properties" with
  | none => rfl
  | some properties =>
    cases properties with
    | object members => exact convertProperties_eq_map members
    | _ => rfl

theorem cites_convertTyped_object_iff :
    Cites target (convertTyped components merging "object" value) ↔
      (∃ property ∈ propertiesOf value,
        Cites target (convertWithin components merging property.2)) ∨
      propertiesOf value = [] ∧ ∃ entries, value.get? "additionalProperties" = some entries ∧
        entries.members?.isSome ∧ Cites target (convertWithin components merging entries) := by
  have object : Cites target (.ofKind (.object
      (declaredProperties components merging value) (requiredNames value))) ↔
        ∃ property ∈ propertiesOf value,
          Cites target (convertWithin components merging property.2) := by
    rw [cites_object_iff, declaredProperties_eq_map]
    simp
  rw [convertTyped_of_object]
  cases value.get? "additionalProperties" with
  | none => simp [object]
  | some entries =>
    have isRecord_iff : ((declaredProperties components merging value).isEmpty &&
        entries.members?.isSome) ↔ propertiesOf value = [] ∧ entries.members?.isSome := by
      rw [declaredProperties_eq_map, List.isEmpty_map, Bool.and_eq_true, List.isEmpty_iff]
    dsimp only
    split
    · rename_i record
      obtain ⟨undeclared, shaped⟩ := isRecord_iff.1 record
      constructor
      · intro cited
        cases cited with
        | value cited => exact .inr ⟨undeclared, entries, rfl, shaped, cited⟩
      · rintro (⟨property, declared, -⟩ | ⟨-, _, same, -, cited⟩)
        · rw [undeclared] at declared
          cases declared
        · cases same
          exact .value cited
    · rename_i closed
      rw [object]
      refine ⟨.inl, fun h => h.resolve_right ?_⟩
      rintro ⟨undeclared, _, same, shaped, -⟩
      cases same
      exact closed (isRecord_iff.2 ⟨undeclared, shaped⟩)

theorem not_cites_convertTyped {type : String} (object : type ≠ "object") (array : type ≠ "array") :
    ¬ Cites target (convertTyped components merging type value) := by
  rw [convertTyped, if_neg array, if_neg object]
  intro cited
  split at cited
  · cases cited
  · split at cited
    · cases cited
    · split at cited
      · cases cited
      · split at cited
        · cases cited
        · exact not_cites_emptyObject cited

theorem cites_convertPlain_iff :
    Cites target (convertPlain components merging value) ↔
      ∃ type ∈ typesOf value, Cites target (convertTyped components merging type value) := by
  unfold convertPlain typesOf
  rcases valueTypes value with _ | ⟨first, _ | ⟨second, rest⟩⟩
  · dsimp only
    split
    · exact ⟨nofun, fun ⟨_, impossible, _⟩ => nomatch impossible⟩
    · split
      · simp
      · split
        · simp
        · split
          · exact ⟨nofun, fun ⟨_, impossible, _⟩ => nomatch impossible⟩
          · exact ⟨fun cited => absurd cited not_cites_emptyObject,
              fun ⟨_, impossible, _⟩ => nomatch impossible⟩
  · simp
  · rw [cites_oneOf_iff]
    simp

/-! ## What a conversion cites, by form -/

/-- What a form converts to. -/
def Form.convert (components : Components) (merging : NameSet) (value : Json) : Form → Schema
  | .reference reference => .ofKind (.ref (refName reference))
  | .union branches => unionOf (discriminator? value) (convertAll components merging branches)
  | .composition [member] => convertWithin components merging member
  | .composition members => .ofKind (mergeObjects (convertMembers components merging members))
  | .typed _ => convertPlain components merging value

/-- A composition of one member converts to that member; the members of any other are merged. -/
theorem Form.convert_composition (components : Components) (merging : NameSet) (value : Json)
    (members : List Json) :
    (∃ member, members = [member] ∧ (Form.composition members).convert components merging value =
        convertWithin components merging member) ∨
      (∀ member, members ≠ [member]) ∧
        (Form.composition members).convert components merging value =
          .ofKind (mergeObjects (convertMembers components merging members)) := by
  rcases members with _ | ⟨first, _ | ⟨second, rest⟩⟩
  · exact .inr ⟨nofun, rfl⟩
  · exact .inl ⟨first, rfl, rfl⟩
  · exact .inr ⟨nofun, rfl⟩

theorem convertObject_eq_form :
    convertObject components merging value = (Form.of value).convert components merging value := by
  rw [convertObject_eq]
  unfold Form.of
  cases (value.get? "$ref").bind Json.string? with
  | some reference => rfl
  | none =>
    have composed : convertComposed components merging value = (match value.get? "allOf" with
        | some (.array members) => Form.composition members
        | _ => .typed (typesOf value)).convert components merging value := by
      unfold convertComposed
      rcases value.get? "allOf" with _ | _ | _ | _ | _ | ⟨_ | ⟨first, _ | ⟨second, rest⟩⟩⟩ | _ <;> rfl
    rcases (value.get? "oneOf").or (value.get? "anyOf") with _ | _ | _ | _ | _ | branches | _
    case some.array => rfl
    all_goals exact composed

/-- A value converts to what its form does, with what is said next to it. -/
theorem kind_convertWithin :
    (convertWithin components merging value).kind =
      ((Form.of value).convert components merging value).kind := by
  rw [convertWithin]
  cases value with
  | object members => rw [← convertObject_eq_form]; rfl
  | _ => rfl

theorem cites_convertWithin_iff :
    Cites target (convertWithin components merging value) ↔
      Cites target ((Form.of value).convert components merging value) :=
  cites_congr kind_convertWithin

theorem convertWithin_of_several {members : List Json} (read : Form.of value = .composition members)
    (several : 2 ≤ members.length) :
    (convertWithin components merging value).kind =
      mergeObjects (convertMembers components merging members) := by
  rw [kind_convertWithin, read]
  rcases Form.convert_composition components merging value members with
    ⟨member, rfl, -⟩ | ⟨-, merged⟩
  · simp at several
  · rw [merged]
    rfl

theorem convertWithin_of_sole {member : Json} (read : Form.of value = .composition [member]) :
    (convertWithin components merging value).kind =
      (convertWithin components merging member).kind := by
  rw [kind_convertWithin, read]
  rfl

/-- What a form tells of the keywords that it was read from. -/
theorem Form.of_cases (value : Json) :
    (∃ reference, Form.of value = .reference reference) ∨
      (∃ branches, Form.of value = .union branches ∧
        (value.get? "oneOf").or (value.get? "anyOf") = some (.array branches)) ∨
      (∃ members, Form.of value = .composition members ∧
        value.get? "allOf" = some (.array members)) ∨
      Form.of value = .typed (typesOf value) := by
  unfold Form.of
  split
  · exact .inl ⟨_, rfl⟩
  · split
    · rename_i found
      exact .inr (.inl ⟨_, rfl, found⟩)
    · split
      · rename_i found
        exact .inr (.inr (.inl ⟨_, rfl, found⟩))
      · exact .inr (.inr (.inr rfl))

theorem Form.of_eq_reference_iff :
    Form.of value = .reference reference ↔
      (value.get? "$ref").bind Json.string? = some reference := by
  constructor
  · intro read
    cases named : (value.get? "$ref").bind Json.string? with
    | some other =>
      have form : Form.of value = .reference other := by
        unfold Form.of
        rw [named]
      cases form.symm.trans read
      rfl
    | none =>
      unfold Form.of at read
      rw [named] at read
      dsimp only at read
      split at read
      · cases read
      · split at read <;> cases read
  · intro named
    unfold Form.of
    rw [named]

theorem Form.eq_union {branches : List Json} (read : Form.of value = .union branches) :
    value.get? "oneOf" = some (.array branches) ∨ value.get? "anyOf" = some (.array branches) := by
  rcases Form.of_cases value with ⟨_, form⟩ | ⟨_, form, found⟩ | ⟨_, form, -⟩ | form <;>
    cases read.symm.trans form
  exact (Option.or_eq_some_iff.1 found).imp id (·.2)

theorem Form.eq_composition {members : List Json} (read : Form.of value = .composition members) :
    value.get? "allOf" = some (.array members) := by
  rcases Form.of_cases value with ⟨_, form⟩ | ⟨_, form, -⟩ | ⟨_, form, found⟩ | form <;>
    cases read.symm.trans form
  exact found

theorem Form.eq_typed {types : List String} (read : Form.of value = .typed types) :
    types = typesOf value := by
  rcases Form.of_cases value with ⟨_, form⟩ | ⟨_, form, -⟩ | ⟨_, form, -⟩ | form <;>
    cases read.symm.trans form
  rfl

theorem sizeOf_lt_of_mem_propertiesOf {name : String}
    (declared : (name, part) ∈ propertiesOf value) : sizeOf part < sizeOf value := by
  unfold propertiesOf at declared
  split at declared
  · rename_i found
    have := Json.sizeOf_lt_of_mem_members declared
    have := Json.sizeOf_members_lt (Json.sizeOf_lt_of_get? found)
    omega
  · cases declared

theorem Part.sizeOf_lt (place : Part value part) : sizeOf part < sizeOf value := by
  cases place with
  | branch read listed =>
    exact (Form.eq_union read).elim (sizeOf_lt_of_mem_get? · listed) (sizeOf_lt_of_mem_get? · listed)
  | member read listed => exact sizeOf_lt_of_mem_get? (Form.eq_composition read) listed
  | property _ _ declared => exact sizeOf_lt_of_mem_propertiesOf declared
  | entries _ _ _ found _ => exact Json.sizeOf_lt_of_get? found
  | items _ _ found => exact Json.sizeOf_lt_of_get? found

/-! ## Merging -/

theorem mem_of_mem_foldl_redeclare {more properties : List (Property Schema)}
    {property : Property Schema} (merged : property ∈ more.foldl redeclare properties) :
    property ∈ more ∨ property ∈ properties := by
  induction more generalizing properties with
  | nil => exact .inr merged
  | cons first rest ih =>
    rcases ih merged with later | earlier
    · exact .inl (List.mem_cons_of_mem _ later)
    · rcases mem_redeclare.1 earlier with ⟨earlier, -⟩ | rfl
      · exact .inr earlier
      · exact .inl List.mem_cons_self

theorem mergeMember_of_object {member : Schema} {properties : List (Property Schema)}
    (object : member.declared? = some properties) (merged : List (Property Schema) × NameSet) :
    (mergeMember merged member).1 = properties.foldl redeclare merged.1 := by
  obtain ⟨kind, metadata⟩ := member
  cases kind with
  | object own required =>
    cases object
    rfl
  | _ => cases object

theorem cites_of_declared {schema : Schema} {properties : List (Property Schema)}
    {property : Property Schema} (object : schema.declared? = some properties)
    (declared : property ∈ properties) (cited : Cites target property.schema) :
    Cites target schema := by
  obtain ⟨kind, metadata⟩ := schema
  cases kind with
  | object own required =>
    cases object
    exact .property declared cited
  | _ => cases object

/-- A merged property was declared by one of the members. -/
theorem exists_member_of_mem_merged {members : List Schema}
    {merged : List (Property Schema) × NameSet} {property : Property Schema}
    (declared : property ∈ (members.foldl mergeMember merged).1) :
    property ∈ merged.1 ∨ ∃ member ∈ members, ∃ properties,
      member.declared? = some properties ∧ property ∈ properties := by
  induction members generalizing merged with
  | nil => exact .inl declared
  | cons first rest ih =>
    rcases ih declared with before | ⟨member, listed, own⟩
    · cases value : first.declared? with
      | none =>
        rw [mergeMember_of_value value] at before
        exact .inl before
      | some properties =>
        rw [mergeMember_of_object value] at before
        rcases mem_of_mem_foldl_redeclare before with own | earlier
        · exact .inr ⟨first, List.mem_cons_self, properties, value, own⟩
        · exact .inl earlier
    · exact .inr ⟨member, List.mem_cons_of_mem _ listed, own⟩

theorem exists_member_of_cites_merged {members : List Schema}
    (cited : Cites target (.ofKind (mergeObjects members))) :
    ∃ member ∈ members, Cites target member := by
  rw [mergeObjects_eq, cites_object_iff] at cited
  obtain ⟨property, declared, cited⟩ := cited
  rcases exists_member_of_mem_merged declared with
    impossible | ⟨member, listed, properties, object, own⟩
  · cases impossible
  · exact ⟨member, listed, cites_of_declared object own cited⟩

/-- What a member of a composition converts to is that of a part, or of a component that is not
being merged yet. -/
theorem mem_convertMembers {members : List Json} {schema : Schema}
    (converted : schema ∈ convertMembers components merging members) :
    (∃ member ∈ members, schema = convertWithin components merging member) ∨
      ∃ name component, components.lookup name = some component ∧ merging.contains name = false ∧
        schema = convertWithin components (merging.insert name) component := by
  rw [convertMembers_eq_filterMap] at converted
  obtain ⟨member, listed, converted⟩ := List.mem_filterMap.1 converted
  unfold convertMember? at converted
  split at converted
  · cases converted
    exact .inl ⟨member, listed, rfl⟩
  · rename_i reference _
    split at converted
    · cases converted
    · rename_i notMerging
      obtain ⟨component, found, rfl⟩ := Option.map_eq_some_iff.1 converted
      exact .inr ⟨refName reference, component, found, Bool.not_eq_true _ ▸ notMerging, rfl⟩

theorem part_of_cites (cited : Cites target (convertWithin components merging value)) :
    (∃ reference, Form.of value = .reference reference ∧ target = refName reference) ∨
      (∃ part, Part value part ∧ Cites target (convertWithin components merging part)) ∨
      ∃ name component, components.lookup name = some component ∧ merging.contains name = false ∧
        Cites target (convertWithin components (merging.insert name) component) := by
  rw [cites_convertWithin_iff] at cited
  cases read : Form.of value with
  | reference reference =>
    rw [read] at cited
    cases cited
    exact .inl ⟨reference, rfl, rfl⟩
  | union branches =>
    rw [read] at cited
    obtain ⟨schema, converted, cited⟩ := cites_unionOf_iff.1 cited
    rw [convertAll_eq_map] at converted
    obtain ⟨branch, listed, rfl⟩ := List.mem_map.1 converted
    exact .inr (.inl ⟨branch, .branch read listed, cited⟩)
  | composition members =>
    rw [read] at cited
    rcases Form.convert_composition components merging value members with
      ⟨member, rfl, sole⟩ | ⟨-, merged⟩
    · rw [sole] at cited
      exact .inr (.inl ⟨member, .member read List.mem_cons_self, cited⟩)
    · rw [merged] at cited
      obtain ⟨schema, converted, cited⟩ := exists_member_of_cites_merged cited
      rcases mem_convertMembers converted with
        ⟨member, listed, rfl⟩ | ⟨name, component, found, notMerging, rfl⟩
      · exact .inr (.inl ⟨member, .member read listed, cited⟩)
      · exact .inr (.inr ⟨name, component, found, notMerging, cited⟩)
  | typed types =>
    rw [read] at cited
    obtain ⟨type, listed, cited⟩ := cites_convertPlain_iff.1 cited
    rw [← Form.eq_typed read] at listed
    refine .inr (.inl ?_)
    by_cases object : type = "object"
    · subst object
      rcases cites_convertTyped_object_iff.1 cited with
        ⟨⟨name, part⟩, declared, cited⟩ | ⟨undeclared, part, found, shaped, cited⟩
      · exact ⟨part, .property read listed declared, cited⟩
      · exact ⟨part, .entries read listed undeclared found shaped, cited⟩
    · by_cases array : type = "array"
      · subst array
        obtain ⟨part, found, cited⟩ := cites_convertTyped_array_iff.1 cited
        exact ⟨part, .items read listed found, cited⟩
      · exact absurd cited (not_cites_convertTyped object array)

/-- A value or one of the components holds a reference to a name. -/
def Originates (components : Components) (value : Json) (target : String) : Prop :=
  ∃ origin reference, (origin = value ∨ ∃ name, (name, origin) ∈ components) ∧
    Holds reference origin ∧ refName reference = target

/-- Whatever a conversion cites, a reference in the value or in one of the components names. -/
theorem originates_of_cites {merging : NameSet} {value : Json}
    (cited : Cites target (convertWithin components merging value)) :
    Originates components value target := by
  rcases part_of_cites cited with
    ⟨reference, read, rfl⟩ | ⟨part, place, cited⟩ | ⟨name, component, found, notMerging, cited⟩
  · exact ⟨value, reference, .inl rfl, .here read, rfl⟩
  · have := place.sizeOf_lt
    obtain ⟨origin, reference, here | listed, held, names⟩ := originates_of_cites cited
    · exact ⟨value, reference, .inl rfl, .inside place (here ▸ held), names⟩
    · exact ⟨origin, reference, .inr listed, held, names⟩
  · have := length_unmerged_insert_lt found notMerging
    have listed := Json.mem_of_lookup found
    obtain ⟨origin, reference, here | other, held, names⟩ := originates_of_cites cited
    · exact ⟨component, reference, .inr ⟨name, listed⟩, here ▸ held, names⟩
    · exact ⟨origin, reference, .inr other, held, names⟩
termination_by ((unmerged components merging).length, sizeOf value)

end ZodModules.OpenApi
