import ZodModules.Proofs.OpenApi.DanglingReferences

/-!
# Merged members

A composition of several members converts to one object with the properties of all of them. The
members may be objects in place or components, and compositions of such members in turn; but a
member that comes to its object by way of a further reference is left out.
-/

namespace ZodModules.OpenApi

open Schema (Property)

/-- The schemas of the properties of an object by name, and the names that it requires. -/
structure ObjectShape where
  schema? : String → Option Schema
  required : NameSet

/-- The schema of the last of some properties that has a name. -/
def schemaNamed? (properties : List (Property Schema)) (name : String) : Option Schema :=
  (properties.reverse.find? (·.name == name)).map (·.schema)

namespace ObjectShape

/-- The object with the given properties; of two with one name the later counts. -/
def ofProperties (properties : List (Property Schema)) (required : NameSet) : ObjectShape :=
  ⟨schemaNamed? properties, required⟩

/-- The object with the properties of two; of two with one name that of the later object counts. -/
def extending (later earlier : ObjectShape) : ObjectShape where
  schema? name := (later.schema? name).or (earlier.schema? name)
  required := earlier.required.union later.required

/-- An object extended by several others in turn. -/
def extendedBy (first : ObjectShape) (shapes : List ObjectShape) : ObjectShape :=
  shapes.foldl (fun earlier later => later.extending earlier) first

/-- The object with the properties of several; of two with one name that of the later object
counts. -/
def merged (shapes : List ObjectShape) : ObjectShape := (ofProperties [] ∅).extendedBy shapes

end ObjectShape

mutual

/-- A schema object denotes an object with properties: it declares them, is a composition of one
member that denotes the object, or one of several members, the properties of which it has. The
components of `met` are those on the way to it. If `further` holds, a reference in the place of the
schema object is followed as well. -/
inductive Denotes (components : Components) (further : Prop) :
    (met : NameSet) → Json → ObjectShape → Prop where
  | object {met : NameSet} {value : Json} (read : Form.of value = .typed ["object"])
      (nonempty : propertiesOf value ≠ []) :
      Denotes components further met value
        (.ofProperties (declaredProperties components met value) (requiredNames value))
  | sole {met : NameSet} {value member : Json} {shape : ObjectShape}
      (read : Form.of value = .composition [member])
      (denoted : Denotes components further met member shape) :
      Denotes components further met value shape
  | several {met : NameSet} {value : Json} {members : List Json} {shapes : List ObjectShape}
      (read : Form.of value = .composition members) (several : 2 ≤ members.length)
      (denoted : MembersDenote components further met members shapes) :
      Denotes components further met value (.merged shapes)
  | further {met : NameSet} {value : Json} {shape : ObjectShape} (followed : further)
      (denoted : MemberDenotes components further met value shape) :
      Denotes components further met value shape

/-- A member of a composition denotes an object with properties, in place or by a reference to a
component that is not met before. -/
inductive MemberDenotes (components : Components) (further : Prop) :
    (met : NameSet) → Json → ObjectShape → Prop where
  | inline {met : NameSet} {member : Json} {shape : ObjectShape}
      (denoted : Denotes components further met member shape) :
      MemberDenotes components further met member shape
  | reference {met : NameSet} {member target : Json} {reference : String} {shape : ObjectShape}
      (read : Form.of member = .reference reference)
      (found : components.lookup (refName reference) = some target)
      (fresh : refName reference ∉ met)
      (denoted : Denotes components further (met.insert (refName reference)) target shape) :
      MemberDenotes components further met member shape

/-- The members of a composition denote objects with properties. -/
inductive MembersDenote (components : Components) (further : Prop) :
    (met : NameSet) → List Json → List ObjectShape → Prop where
  | nil {met : NameSet} : MembersDenote components further met [] []
  | cons {met : NameSet} {member : Json} {rest : List Json} {shape : ObjectShape}
      {shapes : List ObjectShape} (first : MemberDenotes components further met member shape)
      (later : MembersDenote components further met rest shapes) :
      MembersDenote components further met (member :: rest) (shape :: shapes)

end

/-- A schema object stands for a component: it is a reference, or a composition of one member that
stands for a component. -/
inductive IsAlias : Json → Prop where
  | reference {value : Json} {reference : String} (read : Form.of value = .reference reference) :
      IsAlias value
  | sole {value member : Json} (read : Form.of value = .composition [member])
      (isAlias : IsAlias member) : IsAlias value

/-- A member of a composition comes to what it stands for by way of a further reference. -/
inductive IsIndirect (components : Components) : Json → Prop where
  | inline {member inner : Json} (read : Form.of member = .composition [inner])
      (isAlias : IsAlias inner) : IsIndirect components member
  | reference {member target : Json} {reference : String}
      (read : Form.of member = .reference reference)
      (found : components.lookup (refName reference) = some target) (isAlias : IsAlias target) :
      IsIndirect components member

/-- An object has the properties of several: every property of any of them once, with the schema of
the last that declares it, and the requirements of all. -/
structure MergedFrom (properties : List (Property Schema)) (required : NameSet)
    (shapes : List ObjectShape) : Prop where
  nodup : (properties.map (·.name)).Nodup
  declared_iff : ∀ name, name ∈ properties.map (·.name) ↔
    ∃ shape ∈ shapes, (shape.schema? name).isSome
  last : ∀ property ∈ properties, ∃ earlier shape later, shapes = earlier ++ shape :: later ∧
    shape.schema? property.name = some property.schema ∧
      ∀ other ∈ later, other.schema? property.name = none
  required_iff : ∀ name, name ∈ required ↔ ∃ shape ∈ shapes, name ∈ shape.required

variable {components : Components} {met : NameSet} {value member : Json} {name : String}

/-! ## Properties by name -/

theorem schemaNamed?_append (properties more : List (Property Schema)) :
    schemaNamed? (properties ++ more) name =
      (schemaNamed? more name).or (schemaNamed? properties name) := by
  unfold schemaNamed?
  rw [List.reverse_append, List.find?_append]
  cases more.reverse.find? (·.name == name) <;> rfl

theorem schemaNamed?_singleton (property : Property Schema) :
    schemaNamed? [property] name = if property.name = name then some property.schema else none := by
  by_cases same : property.name = name <;> simp [schemaNamed?, same]

/-- Declaring a property again hides just the earlier ones of its name. -/
theorem schemaNamed?_redeclare (properties : List (Property Schema)) (property : Property Schema) :
    schemaNamed? (redeclare properties property) name =
      (schemaNamed? [property] name).or (schemaNamed? properties name) := by
  rw [redeclare, schemaNamed?_append, schemaNamed?_singleton]
  split
  · rfl
  · rename_i other
    simp only [Option.none_or, schemaNamed?, ← List.filter_reverse, List.find?_filter]
    congr 2
    funext earlier
    by_cases same : earlier.name = name
    · simp [same, Ne.symm other]
    · simp [same]

theorem schemaNamed?_foldl_redeclare (more properties : List (Property Schema)) :
    schemaNamed? (more.foldl redeclare properties) name =
      (schemaNamed? more name).or (schemaNamed? properties name) := by
  induction more generalizing properties with
  | nil => rfl
  | cons first rest ih =>
    have both : schemaNamed? (first :: rest) name =
        (schemaNamed? rest name).or (schemaNamed? [first] name) := schemaNamed?_append [first] rest
    rw [List.foldl_cons, ih, schemaNamed?_redeclare, both, Option.or_assoc]

theorem isSome_schemaNamed?_iff {properties : List (Property Schema)} :
    (schemaNamed? properties name).isSome ↔ name ∈ properties.map (·.name) := by
  simp [schemaNamed?, List.find?_isSome]

theorem schemaNamed?_of_mem {properties : List (Property Schema)} {property : Property Schema}
    (nodup : (properties.map (·.name)).Nodup) (declared : property ∈ properties) :
    schemaNamed? properties property.name = some property.schema := by
  have listed : (schemaNamed? properties property.name).isSome :=
    isSome_schemaNamed?_iff.2 (List.mem_map_of_mem declared)
  obtain ⟨schema, found⟩ := Option.isSome_iff_exists.1 listed
  obtain ⟨other, first, rfl⟩ := Option.map_eq_some_iff.1 found
  have same : other.name = property.name := by simpa using List.find?_some first
  have inside := List.mem_reverse.1 (List.mem_of_find?_eq_some first)
  rw [found, List.inj_on_of_nodup_map nodup inside declared same]

/-! ## Merged shapes -/

namespace ObjectShape

theorem extendedBy_cons (first shape : ObjectShape) (rest : List ObjectShape) :
    first.extendedBy (shape :: rest) = (shape.extending first).extendedBy rest := rfl

theorem schema?_extendedBy (shapes : List ObjectShape) (first : ObjectShape) :
    (first.extendedBy shapes).schema? name =
      (shapes.reverse.findSome? (·.schema? name)).or (first.schema? name) := by
  induction shapes generalizing first with
  | nil => rfl
  | cons shape rest ih =>
    rw [extendedBy_cons, ih, List.reverse_cons, List.findSome?_append, Option.or_assoc]
    congr 1
    rw [List.findSome?_singleton]
    rfl

theorem mem_required_extendedBy (shapes : List ObjectShape) (first : ObjectShape) :
    name ∈ (first.extendedBy shapes).required ↔
      name ∈ first.required ∨ ∃ shape ∈ shapes, name ∈ shape.required := by
  induction shapes generalizing first with
  | nil => simp [extendedBy]
  | cons shape rest ih =>
    rw [extendedBy_cons, ih, List.exists_mem_cons_iff, ← or_assoc]
    exact or_congr_left NameSet.mem_union

theorem schema?_merged (shapes : List ObjectShape) (name : String) :
    (merged shapes).schema? name = shapes.reverse.findSome? (·.schema? name) := by
  rw [merged, schema?_extendedBy]
  exact Option.or_none

theorem isSome_schema?_merged_iff {shapes : List ObjectShape} :
    ((merged shapes).schema? name).isSome ↔ ∃ shape ∈ shapes, (shape.schema? name).isSome := by
  rw [schema?_merged, List.findSome?_isSome_iff]
  simp

end ObjectShape

theorem mergedFrom_of_eq {properties : List (Property Schema)} {required : NameSet}
    {shapes : List ObjectShape} (nodup : (properties.map (·.name)).Nodup)
    (same : ObjectShape.ofProperties properties required = .merged shapes) :
    MergedFrom properties required shapes := by
  have schemas (name : String) :
      schemaNamed? properties name = shapes.reverse.findSome? (·.schema? name) := by
    rw [← ObjectShape.schema?_merged, ← same]
    rfl
  refine ⟨nodup, ?_, ?_, ?_⟩
  · intro name
    rw [← isSome_schemaNamed?_iff, schemas, ← ObjectShape.schema?_merged,
      ObjectShape.isSome_schema?_merged_iff]
  · intro property declared
    have found := (schemas property.name).symm.trans (schemaNamed?_of_mem nodup declared)
    obtain ⟨later, shape, earlier, split, own, others⟩ := List.findSome?_eq_some_iff.1 found
    refine ⟨earlier.reverse, shape, later.reverse, ?_, own, ?_⟩
    · rw [← List.reverse_inj, split]
      simp
    · exact fun other member => others other (List.mem_reverse.1 member)
  · intro name
    have required_eq : required = (ObjectShape.merged shapes).required := by rw [← same]; rfl
    rw [required_eq, ObjectShape.merged, ObjectShape.mem_required_extendedBy]
    exact or_iff_right (NameSet.not_mem_empty name)

/-! ## Conversion -/

/-- A schema is an object with the properties of a shape. -/
def Presents (schema : Schema) (shape : ObjectShape) : Prop :=
  ∃ properties required, schema.kind = .object properties required ∧
    shape = .ofProperties properties required

theorem presents_congr {schema other : Schema} {shape : ObjectShape}
    (same : schema.kind = other.kind) : Presents schema shape ↔ Presents other shape := by
  unfold Presents
  rw [same]

theorem ofProperties_mergeMember {schema : Schema} {shape : ObjectShape}
    (presents : Presents schema shape) (merged : List (Property Schema) × NameSet) :
    ObjectShape.ofProperties (mergeMember merged schema).1 (mergeMember merged schema).2 =
      shape.extending (.ofProperties merged.1 merged.2) := by
  obtain ⟨properties, required, object, rfl⟩ := presents
  rw [mergeMember, object]
  simp only [ObjectShape.ofProperties, ObjectShape.extending, ObjectShape.mk.injEq, and_true]
  funext name
  exact schemaNamed?_foldl_redeclare properties merged.1

theorem ofProperties_foldl_mergeMember {schemas : List Schema} {shapes : List ObjectShape}
    (presents : List.Forall₂ Presents schemas shapes) (merged : List (Property Schema) × NameSet) :
    ObjectShape.ofProperties (schemas.foldl mergeMember merged).1
        (schemas.foldl mergeMember merged).2 =
      (ObjectShape.ofProperties merged.1 merged.2).extendedBy shapes := by
  induction presents generalizing merged with
  | nil => rfl
  | cons first _ ih =>
    rw [List.foldl_cons, ih, ofProperties_mergeMember first, ObjectShape.extendedBy_cons]

theorem convertMember?_of_inline (inline : ∀ reference, Form.of member ≠ .reference reference) :
    convertMember? components met member = some (convertWithin components met member) := by
  unfold convertMember?
  split
  · rfl
  · rename_i reference named
    exact absurd (Form.of_eq_reference_iff.2 named) (inline reference)

theorem convertMember?_of_reference {reference : String} {target : Json}
    (read : Form.of member = .reference reference)
    (found : components.lookup (refName reference) = some target)
    (fresh : refName reference ∉ met) :
    convertMember? components met member =
      some (convertWithin components (met.insert (refName reference)) target) := by
  rw [convertMember?, Form.of_eq_reference_iff.1 read]
  simp [NameSet.contains_eq_false_iff.2 fresh, found]

mutual

/-- A schema object that denotes an object without a further reference converts to that object. -/
theorem Denotes.presents {met : NameSet} {value : Json} {shape : ObjectShape} :
    Denotes components False met value shape → Presents (convertWithin components met value) shape
  | .object read nonempty => by
    rw [presents_congr kind_convertWithin, read, Form.convert,
      convertPlain_of_object (Form.eq_typed read).symm, convertTyped_of_declared nonempty]
    exact ⟨_, _, rfl, rfl⟩
  | .sole read denoted => (presents_congr (convertWithin_of_sole read)).2 denoted.presents
  | .several read several denoted => by
    refine ⟨_, _, (convertWithin_of_several read several).trans (mergeObjects_eq _), ?_⟩
    rw [ofProperties_foldl_mergeMember denoted.presents]
    rfl

/-- A member that denotes an object without a further reference is converted to that object. -/
theorem MemberDenotes.presents {met : NameSet} {member : Json} {shape : ObjectShape} :
    MemberDenotes components False met member shape →
      ∃ schema, convertMember? components met member = some schema ∧ Presents schema shape
  | .inline denoted => by
    have presents := denoted.presents
    refine ⟨_, convertMember?_of_inline ?_, presents⟩
    intro reference read
    obtain ⟨_, _, object, -⟩ := (presents_congr kind_convertWithin).1 presents
    rw [read] at object
    cases object
  | .reference read found fresh denoted =>
    ⟨_, convertMember?_of_reference read found fresh, denoted.presents⟩

theorem MembersDenote.presents {met : NameSet} {members : List Json} {shapes : List ObjectShape} :
    MembersDenote components False met members shapes →
      List.Forall₂ Presents (convertMembers components met members) shapes
  | .nil => by
    rw [convertMembers]
    exact .nil
  | .cons first later => by
    obtain ⟨schema, converted, presents⟩ := first.presents
    have rest := later.presents
    rw [convertMembers_eq_filterMap] at rest ⊢
    rw [List.filterMap_cons_some converted]
    exact .cons presents rest

end

/-- A schema object that stands for a component converts to a reference to it. -/
theorem IsAlias.kind (components : Components) (met : NameSet) (isAlias : IsAlias value) :
    ∃ target, (convertWithin components met value).kind = .ref target := by
  induction isAlias with
  | reference read =>
    rw [kind_convertWithin, read]
    exact ⟨_, rfl⟩
  | sole read _ ih =>
    rw [convertWithin_of_sole read]
    exact ih

/-- What a member that comes to its object by a further reference converts to is no object. -/
theorem IsIndirect.declared? (indirect : IsIndirect components member) {schema : Schema}
    (converted : convertMember? components met member = some schema) : schema.declared? = none := by
  have of_alias {met : NameSet} {value : Json} (isAlias : IsAlias value) :
      (convertWithin components met value).declared? = none := by
    obtain ⟨target, kind⟩ := isAlias.kind components met
    rw [Schema.declared?, kind]
  cases indirect with
  | inline read isAlias =>
    rw [convertMember?_of_inline (by simp [read])] at converted
    cases converted
    exact of_alias (.sole read isAlias)
  | @reference target reference read found isAlias =>
    by_cases present : refName reference ∈ met
    · rw [convertMember?, Form.of_eq_reference_iff.1 read] at converted
      simp [NameSet.contains_eq_true_iff.2 present] at converted
    · rw [convertMember?_of_reference read found present] at converted
      cases converted
      exact of_alias isAlias

/-- A member that comes to its object by a further reference has no part in what is merged. -/
theorem mergeObjects_convertMembers_of_indirect {earlier later : List Json}
    (indirect : IsIndirect components member) :
    mergeObjects (convertMembers components met (earlier ++ member :: later)) =
      mergeObjects (convertMembers components met (earlier ++ later)) := by
  simp only [convertMembers_eq_filterMap, List.filterMap_append, mergeObjects_eq, List.foldl_append]
  cases converted : convertMember? components met member with
  | none => rw [List.filterMap_cons_none converted]
  | some schema =>
    rw [List.filterMap_cons_some converted, List.foldl_cons,
      mergeMember_of_value (indirect.declared? converted)]

/-- A composition of several members converts to one object. If each member denotes an object with
properties without a further reference, that object has the properties and the requirements of all
of them; and a member that comes to its object by a further reference might as well not be there. -/
theorem composition_merges_members (components : Components) {value : Json} {members : List Json}
    (read : Form.of value = .composition members) (several : 2 ≤ members.length) :
    (∀ shapes, MembersDenote components False ∅ members shapes →
      ∃ properties required, (convert components value).kind = .object properties required ∧
        MergedFrom properties required shapes) ∧
    ∀ earlier member later, members = earlier ++ member :: later → IsIndirect components member →
      (convert components value).kind =
        mergeObjects (convertMembers components ∅ (earlier ++ later)) := by
  have converted : (convert components value).kind =
      mergeObjects (convertMembers components ∅ members) := convertWithin_of_several read several
  constructor
  · intro shapes denoted
    refine ⟨_, _, converted.trans (mergeObjects_eq _), mergedFrom_of_eq ?_ ?_⟩
    · exact nodup_foldl_mergeMember List.nodup_nil
    · exact ofProperties_foldl_mergeMember denoted.presents _
  · rintro earlier member later rfl indirect
    rw [converted, mergeObjects_convertMembers_of_indirect indirect]

section Goods

open Generation (referenceTo)

/-- A composition of the given members. -/
def composed (members : List Json) : Json := .object [("allOf", .array members)]

theorem of_composed (members : List Json) :
    Form.of (composed members) = .composition members := rfl

theorem of_referenceTo (component : String) :
    Form.of (referenceTo component) = .reference (schemaPrefix ++ component) := rfl

/-- Goods that have a name and goods that have a price both are items. -/
def goods : Components :=
  [("Item", texting "id"), ("Named", composed [referenceTo "Item", texting "name"]),
    ("Priced", composed [referenceTo "Item", texting "price"])]

/-- The shape of an object with one text. -/
def textShape (components : Components) (met : NameSet) (property : String) : ObjectShape :=
  .ofProperties [⟨property, convertWithin components met (.object [("type", .string "string")])⟩] ∅

theorem denotes_texting {further : Prop} (property : String) :
    Denotes components further met (texting property) (textShape components met property) := by
  have read : Form.of (texting property) = .typed ["object"] := rfl
  have own : declaredProperties components met (texting property) =
      [⟨property, convertWithin components met (.object [("type", .string "string")])⟩] := by
    rw [declaredProperties_eq_map]
    rfl
  have object : Denotes components further met (texting property)
      (.ofProperties (declaredProperties components met (texting property)) _) :=
    .object read (List.cons_ne_nil _ _)
  rw [own] at object
  exact object

theorem isSome_textShape_iff {property : String} :
    ((textShape components met property).schema? name).isSome ↔ name = property := by
  show (schemaNamed? [_] name).isSome ↔ _
  rw [isSome_schemaNamed?_iff]
  exact List.mem_singleton

theorem memberDenotes_referenceTo {further : Prop} {component : String} {target : Json}
    {shape : ObjectShape} (plain : refName (schemaPrefix ++ component) = component)
    (found : components.lookup component = some target) (fresh : component ∉ met)
    (denoted : Denotes components further (met.insert component) target shape) :
    MemberDenotes components further met (referenceTo component) shape := by
  rw [← plain] at found fresh denoted
  exact .reference (of_referenceTo component) found fresh denoted

theorem refName_goods : ∀ component ∈ ["Item", "Named", "Priced", "Ware"],
    refName (schemaPrefix ++ component) = component := by
  decide +kernel

/-- An item with one more text. -/
theorem denotes_item (fresh : "Item" ∉ met) (property : String) :
    Denotes goods False met (composed [referenceTo "Item", texting property])
      (.merged [textShape goods (met.insert "Item") "id", textShape goods met property]) := by
  have item : MemberDenotes goods False met (referenceTo "Item")
      (textShape goods (met.insert "Item") "id") :=
    memberDenotes_referenceTo (refName_goods _ (by simp)) rfl fresh (denotes_texting "id")
  exact .several (of_composed _) (Nat.le_refl 2)
    (.cons item (.cons (.inline (denotes_texting property)) .nil))

/-- Goods with a name and a price have the properties of an item once. -/
theorem goods_merge :
    ∃ properties required,
      (convert goods (composed [referenceTo "Named", referenceTo "Priced"])).kind =
        .object properties required ∧
      (properties.map (·.name)).Nodup ∧
        ∀ name, name ∈ properties.map (·.name) ↔ name = "id" ∨ name = "name" ∨ name = "price" := by
  have named : MemberDenotes goods False ∅ (referenceTo "Named") _ :=
    memberDenotes_referenceTo (refName_goods _ (by simp)) rfl (NameSet.not_mem_empty _)
      (denotes_item (by decide) "name")
  have priced : MemberDenotes goods False ∅ (referenceTo "Priced") _ :=
    memberDenotes_referenceTo (refName_goods _ (by simp)) rfl (NameSet.not_mem_empty _)
      (denotes_item (by decide) "price")
  obtain ⟨properties, required, object, merged⟩ :=
    (composition_merges_members goods
      (of_composed [referenceTo "Named", referenceTo "Priced"]) (Nat.le_refl 2)).1 _
      (.cons named (.cons priced .nil))
  refine ⟨properties, required, object, merged.nodup, fun name => ?_⟩
  rw [merged.declared_iff]
  simp only [List.exists_mem_cons_iff, ObjectShape.isSome_schema?_merged_iff, isSome_textShape_iff,
    List.not_mem_nil, false_and, exists_false, or_false]
  grind

/-- An item, and another name for items. -/
def wares : Components := [("Item", texting "id"), ("Ware", referenceTo "Item")]

/-- A ware is an item by another name and so denotes an object with an identifier, but a composition
of a ware and a text does not have it. -/
theorem ware_is_lost :
    ∃ shapes, MembersDenote wares True ∅ [referenceTo "Ware", texting "name"] shapes ∧
      (∃ shape ∈ shapes, (shape.schema? "id").isSome) ∧
      ∃ properties required,
        (convert wares (composed [referenceTo "Ware", texting "name"])).kind =
          .object properties required ∧ "id" ∉ properties.map (·.name) := by
  have item : MemberDenotes wares True (NameSet.insert ∅ "Ware") (referenceTo "Item") _ :=
    memberDenotes_referenceTo (refName_goods _ (by simp)) rfl (by decide) (denotes_texting "id")
  have ware : MemberDenotes wares True ∅ (referenceTo "Ware") _ :=
    memberDenotes_referenceTo (refName_goods _ (by simp)) rfl (NameSet.not_mem_empty _)
      (.further trivial item)
  refine ⟨_, .cons ware (.cons (.inline (denotes_texting "name")) .nil),
    ⟨_, List.mem_cons_self, isSome_textShape_iff.2 rfl⟩, ?_⟩
  have found : wares.lookup (refName (schemaPrefix ++ "Ware")) = some (referenceTo "Item") := by
    rw [refName_goods _ (by simp)]
    rfl
  have indirect : IsIndirect wares (referenceTo "Ware") :=
    .reference (of_referenceTo _) found (.reference (of_referenceTo _))
  have rest : convertMembers wares ∅ [texting "name"] =
      [.ofKind (.object [⟨"name", .ofKind (.string {})⟩] ∅)] := by
    rw [convertMembers_eq_filterMap, ← convertWithin_texting]
    rfl
  have lost : mergeObjects (convertMembers wares ∅ [referenceTo "Ware", texting "name"]) =
      .object [⟨"name", .ofKind (.string {})⟩] ∅ := by
    have others : mergeObjects (convertMembers wares ∅ ([] ++ referenceTo "Ware" :: _)) =
        mergeObjects (convertMembers wares ∅ ([] ++ [texting "name"])) :=
      mergeObjects_convertMembers_of_indirect indirect
    rw [List.nil_append, List.nil_append, rest] at others
    exact others
  have merged : (convert wares (composed [referenceTo "Ware", texting "name"])).kind = _ :=
    convertWithin_of_several (of_composed _) (Nat.le_refl 2)
  exact ⟨_, _, merged.trans lost, by decide⟩

end Goods

end ZodModules.OpenApi
