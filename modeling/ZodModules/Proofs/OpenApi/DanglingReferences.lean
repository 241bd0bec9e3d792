import ZodModules.Proofs.Generation.Failures
import ZodModules.Proofs.Generation.ImportGraph
import ZodModules.Proofs.OpenApi.ExactUsage
import ZodModules.Proofs.OpenApi.References
import ZodModules.Proofs.Project.Builds

/-!
# References that lead nowhere

A reference to a schema that the components do not declare fails the build, unless the conversion
drops it: merging the members of a composition leaves out what is no object and what a later member
declares again. A build never fails so without such a reference.
-/

namespace ZodModules.OpenApi

open Relation (ReflTransGen)
open Schema (Property Cites)

variable {components : Components} {value part : Json} {name target reference : String}

/-- A schema is an object with a property of a name. -/
def Declares (schema : Schema) (name : String) : Prop :=
  ∃ properties, schema.declared? = some properties ∧ name ∈ properties.map (·.name)

/-- A schema object is a composition whose members are merged, as they are unless there is one. -/
def Merges (value : Json) : Prop :=
  ∃ members, Form.of value = .composition members ∧ ∀ member, members ≠ [member]

mutual

/-- A schema object keeps a reference that it holds through its conversion. Of a composition whose
members are merged only what is kept under a property counts. -/
inductive Keeps (components : Components) (reference : String) : Json → Prop where
  | here {value : Json} (read : Form.of value = .reference reference) :
      Keeps components reference value
  | inside {value part : Json} (place : Part value part) (whole : ¬ Merges value)
      (kept : Keeps components reference part) : Keeps components reference value
  | under {value : Json} {name : String} (kept : KeepsUnder components reference name value) :
      Keeps components reference value

/-- A schema object is one with a property that keeps a reference: it declares the property, is a
sole branch that does, or has a member that does and no later one that declares it again. -/
inductive KeepsUnder (components : Components) (reference : String) : String → Json → Prop where
  | property {value part : Json} {name : String} (read : Form.of value = .typed ["object"])
      (declared : (name, part) ∈ propertiesOf value) (kept : Keeps components reference part) :
      KeepsUnder components reference name value
  | branch {value branch : Json} {name : String} (read : Form.of value = .union [branch])
      (kept : KeepsUnder components reference name branch) :
      KeepsUnder components reference name value
  | member {value member : Json} {earlier later : List Json} {name : String}
      (read : Form.of value = .composition (earlier ++ member :: later))
      (kept : KeepsUnder components reference name member)
      (last : ∀ schema ∈ convertMembers components ∅ later, ¬ Declares schema name) :
      KeepsUnder components reference name value

end

/-- A schema is an object that declares each property once, and that of a name cites a target. -/
def CitesUnder (target name : String) (schema : Schema) : Prop :=
  ∃ properties, schema.declared? = some properties ∧ (properties.map (·.name)).Nodup ∧
    ∃ property ∈ properties, property.name = name ∧ Cites target property.schema

theorem CitesUnder.cites {schema : Schema} (under : CitesUnder target name schema) :
    Cites target schema := by
  obtain ⟨properties, object, -, property, declared, -, cited⟩ := under
  exact cites_of_declared object declared cited

theorem citesUnder_congr {schema other : Schema} (same : schema.kind = other.kind) :
    CitesUnder target name schema ↔ CitesUnder target name other := by
  have declared : schema.declared? = other.declared? := by
    unfold Schema.declared?
    rw [same]
  unfold CitesUnder
  rw [declared]

/-! ## Places -/

theorem distinct_propertiesOf (distinct : value.Distinct) :
    ((propertiesOf value).map Prod.fst).Nodup ∧
      ∀ property ∈ propertiesOf value, property.2.Distinct := by
  unfold propertiesOf
  split
  · rename_i found
    exact Json.distinct_object_iff.1 (distinct.of_get? found)
  · exact ⟨List.nodup_nil, nofun⟩

theorem Part.distinct (place : Part value part) (distinct : value.Distinct) : part.Distinct := by
  have inside {key : String} {items : List Json} (found : value.get? key = some (.array items))
      (listed : part ∈ items) : part.Distinct :=
    Json.distinct_array_iff.1 (distinct.of_get? found) part listed
  cases place with
  | branch read listed =>
    exact (Form.eq_union read).elim (inside · listed) (inside · listed)
  | member read listed => exact inside (Form.eq_composition read) listed
  | property _ _ declared => exact (distinct_propertiesOf distinct).2 _ declared
  | entries _ _ _ found _ => exact distinct.of_get? found
  | items _ _ found => exact distinct.of_get? found

variable {merging : NameSet}

/-- What a part cites, the whole cites, unless it is merged. -/
theorem Part.cites (place : Part value part) (whole : ¬ Merges value)
    (cited : Cites target (convertWithin components merging part)) :
    Cites target (convertWithin components merging value) := by
  rw [cites_convertWithin_iff]
  cases place with
  | branch read listed =>
    rw [read]
    refine cites_unionOf_iff.2 ⟨_, ?_, cited⟩
    rw [convertAll_eq_map]
    exact List.mem_map_of_mem listed
  | @member members _ read listed =>
    rw [read]
    rcases Form.convert_composition components merging value members with
      ⟨member, rfl, sole⟩ | ⟨several, -⟩
    · rw [sole, ← List.mem_singleton.1 listed]
      exact cited
    · exact absurd ⟨members, read, several⟩ whole
  | property read typed declared =>
    rw [read]
    rw [Form.eq_typed read] at typed
    exact cites_convertPlain_iff.2 ⟨_, typed,
      cites_convertTyped_object_iff.2 (.inl ⟨_, declared, cited⟩)⟩
  | entries read typed undeclared found shaped =>
    rw [read]
    rw [Form.eq_typed read] at typed
    exact cites_convertPlain_iff.2 ⟨_, typed,
      cites_convertTyped_object_iff.2 (.inr ⟨undeclared, _, found, shaped, cited⟩)⟩
  | items read typed found =>
    rw [read]
    rw [Form.eq_typed read] at typed
    exact cites_convertPlain_iff.2 ⟨_, typed, cites_convertTyped_array_iff.2 ⟨_, found, cited⟩⟩

/-! ## Properties -/

theorem convertPlain_of_object (only : typesOf value = ["object"]) :
    convertPlain components merging value = convertTyped components merging "object" value := by
  revert only
  unfold typesOf convertPlain
  rcases valueTypes value with _ | ⟨first, _ | ⟨second, rest⟩⟩
  · dsimp only
    split
    · nofun
    · split
      · exact fun _ => rfl
      · split <;> nofun
  · rintro ⟨⟩
    rfl
  · nofun

theorem convertTyped_of_declared (nonempty : propertiesOf value ≠ []) :
    convertTyped components merging "object" value =
      .ofKind (.object (declaredProperties components merging value) (requiredNames value)) := by
  rw [convertTyped_of_object]
  have closed : (declaredProperties components merging value).isEmpty = false := by
    rw [declaredProperties_eq_map, List.isEmpty_map]
    simpa using nonempty
  cases value.get? "additionalProperties" with
  | none => rfl
  | some entries =>
    dsimp only
    rw [closed]
    rfl

/-- A declared property cites what its schema does. -/
theorem citesUnder_of_property (read : Form.of value = .typed ["object"])
    (declared : (name, part) ∈ propertiesOf value)
    (distinct : ((propertiesOf value).map Prod.fst).Nodup)
    (cited : Cites target (convertWithin components merging part)) :
    CitesUnder target name (convertWithin components merging value) := by
  rw [citesUnder_congr kind_convertWithin, read, Form.convert,
    convertPlain_of_object (Form.eq_typed read).symm,
    convertTyped_of_declared (List.ne_nil_of_mem declared)]
  refine ⟨_, rfl, ?_, ⟨name, convertWithin components merging part⟩, ?_, rfl, cited⟩
  · rw [declaredProperties_eq_map, List.map_map]
    exact distinct
  · rw [declaredProperties_eq_map]
    exact List.mem_map.2 ⟨_, declared, rfl⟩

/-! ## Merging -/

theorem mem_foldl_redeclare_of_not_mem {more properties : List (Property Schema)}
    {property : Property Schema} (declared : property ∈ properties)
    (last : property.name ∉ more.map (·.name)) : property ∈ more.foldl redeclare properties := by
  induction more generalizing properties with
  | nil => exact declared
  | cons first rest ih =>
    rw [List.map_cons, List.mem_cons, not_or] at last
    exact ih (mem_redeclare.2 (.inl ⟨declared, last.1⟩)) last.2

theorem nodup_foldl_mergeMember {members : List Schema}
    {merged : List (Property Schema) × NameSet} (distinct : (merged.1.map (·.name)).Nodup) :
    ((members.foldl mergeMember merged).1.map (·.name)).Nodup := by
  induction members generalizing merged with
  | nil => exact distinct
  | cons member rest ih =>
    apply ih
    cases object : member.declared? with
    | none => rwa [mergeMember_of_value object]
    | some properties =>
      rw [mergeMember_of_object object]
      exact nodup_foldl_redeclare distinct

/-- A property stays if no later member declares it again. -/
theorem mem_foldl_mergeMember {members : List Schema} {merged : List (Property Schema) × NameSet}
    {property : Property Schema} (declared : property ∈ merged.1)
    (last : ∀ member ∈ members, ¬ Declares member property.name) :
    property ∈ (members.foldl mergeMember merged).1 := by
  induction members generalizing merged with
  | nil => exact declared
  | cons member rest ih =>
    obtain ⟨next, last⟩ := List.forall_mem_cons.1 last
    refine ih ?_ last
    cases object : member.declared? with
    | none => rwa [mergeMember_of_value object]
    | some properties =>
      rw [mergeMember_of_object object]
      exact mem_foldl_redeclare_of_not_mem declared fun again => next ⟨properties, object, again⟩

theorem citesUnder_merged {before after : List Schema} {schema : Schema}
    (under : CitesUnder target name schema) (last : ∀ other ∈ after, ¬ Declares other name) :
    CitesUnder target name (.ofKind (mergeObjects (before ++ schema :: after))) := by
  obtain ⟨properties, object, distinct, property, declared, rfl, cited⟩ := under
  rw [mergeObjects_eq]
  refine ⟨_, rfl, nodup_foldl_mergeMember List.nodup_nil, property, ?_, rfl, cited⟩
  rw [List.foldl_append, List.foldl_cons]
  refine mem_foldl_mergeMember ?_ last
  rw [mergeMember_of_object object]
  exact (mem_foldl_redeclare distinct).2 (.inl declared)

theorem convertMembers_append {earlier later : List Json} {member : Json}
    (inline : (member.get? "$ref").bind Json.string? = none) :
    convertMembers components merging (earlier ++ member :: later) =
      convertMembers components merging earlier ++ convertWithin components merging member ::
        convertMembers components merging later := by
  rw [convertMembers_eq_filterMap, List.filterMap_append, List.filterMap_cons,
    ← convertMembers_eq_filterMap, ← convertMembers_eq_filterMap, convertMember?, inline]

theorem inline_of_citesUnder
    (under : CitesUnder target name (convertWithin components merging value)) :
    (value.get? "$ref").bind Json.string? = none := by
  cases read : (value.get? "$ref").bind Json.string? with
  | none => rfl
  | some reference =>
    have form : Form.of value = .reference reference := by
      unfold Form.of
      rw [read]
    rw [citesUnder_congr kind_convertWithin, form] at under
    obtain ⟨_, object, -⟩ := under
    cases object

/-- What a member of a composition cites under a property stays under it if no later member declares
that property again. -/
theorem citesUnder_of_member {earlier later : List Json} {member : Json}
    (read : Form.of value = .composition (earlier ++ member :: later))
    (under : CitesUnder target name (convertWithin components merging member))
    (last : ∀ schema ∈ convertMembers components merging later, ¬ Declares schema name) :
    CitesUnder target name (convertWithin components merging value) := by
  have merged : CitesUnder target name (.ofKind (mergeObjects
      (convertMembers components merging (earlier ++ member :: later)))) := by
    rw [convertMembers_append (inline_of_citesUnder under)]
    exact citesUnder_merged under last
  rw [citesUnder_congr kind_convertWithin, read]
  rcases Form.convert_composition components merging value (earlier ++ member :: later) with
    ⟨only, members, sole⟩ | ⟨-, several⟩
  · obtain ⟨rfl, rfl⟩ : earlier = [] ∧ member = only := by
      rcases earlier with _ | ⟨first, rest⟩
      · exact ⟨rfl, (List.cons.inj members).1⟩
      · simp at members
    rwa [sole]
  · rwa [several]

/-! ## Kept references -/

mutual

/-- A kept reference is cited by the conversion. -/
theorem Keeps.cites {value : Json} (kept : Keeps components reference value)
    (distinct : value.Distinct) :
    Cites (refName reference) (convertWithin components ∅ value) := by
  cases kept with
  | here read =>
    rw [cites_convertWithin_iff, read]
    exact .ref
  | inside place whole kept =>
    have := place.sizeOf_lt
    exact place.cites whole (kept.cites (place.distinct distinct))
  | under kept => exact (kept.citesUnder distinct).cites
termination_by (sizeOf value, 1)

theorem KeepsUnder.citesUnder {value : Json} {name : String}
    (kept : KeepsUnder components reference name value) (distinct : value.Distinct) :
    CitesUnder (refName reference) name (convertWithin components ∅ value) := by
  cases kept with
  | property read declared kept =>
    have place : Part value _ := .property read List.mem_cons_self declared
    have := place.sizeOf_lt
    exact citesUnder_of_property read declared (distinct_propertiesOf distinct).1
      (kept.cites (place.distinct distinct))
  | branch read kept =>
    have place : Part value _ := .branch read List.mem_cons_self
    have := place.sizeOf_lt
    rw [citesUnder_congr kind_convertWithin, read, Form.convert, convertAll_eq_map]
    exact kept.citesUnder (place.distinct distinct)
  | member read kept last =>
    have place : Part value _ := .member read (List.mem_append_right _ List.mem_cons_self)
    have := place.sizeOf_lt
    exact citesUnder_of_member read (kept.citesUnder (place.distinct distinct)) last
termination_by (sizeOf value, 0)

end

mutual

/-- What is kept is held. -/
theorem Keeps.holds {value : Json} : Keeps components reference value → Holds reference value
  | .here read => .here read
  | .inside place _ kept => .inside place kept.holds
  | .under kept => kept.holds

theorem KeepsUnder.holds {value : Json} {name : String} :
    KeepsUnder components reference name value → Holds reference value
  | .property read declared kept => .inside (.property read List.mem_cons_self declared) kept.holds
  | .branch read kept => .inside (.branch read List.mem_cons_self) kept.holds
  | .member read kept _ =>
    .inside (.member read (List.mem_append_right _ List.mem_cons_self)) kept.holds

end

/-- What is held is kept if nothing is merged on the way to it. -/
theorem Holds.keeps (held : Holds reference value)
    (whole : ∀ inner, ReflTransGen Part value inner → ¬ Merges inner) :
    Keeps components reference value := by
  induction held with
  | here read => exact .here read
  | inside place _ ih =>
    exact .inside place (whole _ .refl) (ih fun inner leads => whole inner (.head place leads))

/-! ## Documents -/

variable {content : Json} {document : Document} {settings : Settings} {config : Config}

theorem distinct_components (distinct : content.Distinct)
    (listed : OpenApi.components content = .ok components) :
    (Json.object components).Distinct := by
  unfold OpenApi.components at listed
  split at listed
  · cases listed
  · split at listed
    · cases listed
      simp
    · rename_i found
      cases listed
      obtain ⟨part, inside, found⟩ := Option.bind_eq_some_iff.1 found
      exact (distinct.of_get? inside).of_get? found
    · cases listed

/-- A registered schema contains a reference to an unregistered name just if the conversion of its
component cites the name of none. -/
theorem dangles_registryOf_iff (distinct : (components.map Prod.fst).Nodup) :
    (registryOf components).Dangles name target ↔
      ∃ value, (name, value) ∈ components ∧ Cites target (convert components value) ∧
        target ∉ components.map Prod.fst := by
  have found_iff (name : String) (value : Json) :
      (Json.object components).get? name = some value ↔ (name, value) ∈ components :=
    NameMap.lookup_eq_some_iff distinct
  have registered : (registryOf components).contains target ↔ target ∈ components.map Prod.fst := by
    rw [contains_registryOf distinct, Option.isSome_iff_exists]
    simp [found_iff]
  unfold Registry.Dangles Registry.Cites
  rw [registered, get?_registryOf distinct]
  simp only [Option.map_eq_some_iff, found_iff]
  constructor
  · rintro ⟨⟨_, ⟨value, listed, rfl⟩, cited⟩, missing⟩
    exact ⟨value, listed, cited, missing⟩
  · rintro ⟨value, listed, cited, missing⟩
    exact ⟨⟨_, ⟨value, listed, rfl⟩, cited⟩, missing⟩

/-- A build with valid settings fails with references just if a registered schema contains one to an
unregistered name. -/
theorem build_fails_iff (valid : settings.config = .ok config) :
    (∃ errors, Build.ofDocument settings document = .error (.run (.resolution errors))) ↔
      ∃ source target, document.registry.Dangles source target := by
  rw [← (Generation.isolates_run config document.registry document.usage).outcome config.strict]
  simp only [Build.ofDocument_eq_run_iff, Generation.tryRun_eq_error_iff, valid, Except.ok.injEq,
    exists_eq_left']

/-- A build with valid settings fails with the references that lead nowhere if a component keeps one
that names no component, and so does not fail unless a component holds such a reference. -/
theorem dangling_references_fail (distinct : content.Distinct)
    (loaded : Document.ofJson content = .ok document)
    (listed : OpenApi.components content = .ok components)
    (valid : settings.config = .ok config) :
    (∀ name value reference, (name, value) ∈ components → Keeps components reference value →
      refName reference ∉ components.map Prod.fst →
        ∃ errors, Build.ofDocument settings document = .error (.run (.resolution errors))) ∧
    ∀ errors, Build.ofDocument settings document = .error (.run (.resolution errors)) →
      ∃ name value reference, (name, value) ∈ components ∧ Holds reference value ∧
        refName reference ∉ components.map Prod.fst := by
  obtain ⟨keys, each⟩ := Json.distinct_object_iff.1 (distinct_components distinct listed)
  obtain ⟨_, again, registered, -⟩ := exists_components_of_ofJson loaded
  obtain rfl := Except.ok.inj (again.symm.trans listed)
  rw [build_fails_iff valid, registered]
  constructor
  · intro name value reference declared kept missing
    exact ⟨name, refName reference, (dangles_registryOf_iff keys).2
      ⟨value, declared, kept.cites (each _ declared), missing⟩⟩
  · intro errors failed
    obtain ⟨source, target, dangles⟩ := registered ▸ (build_fails_iff valid).1 ⟨errors, failed⟩
    obtain ⟨value, declared, cited, missing⟩ := (dangles_registryOf_iff keys).1 dangles
    obtain ⟨origin, reference, here | ⟨name, elsewhere⟩, held, rfl⟩ := originates_of_cites cited
    · exact ⟨source, value, reference, declared, here ▸ held, missing⟩
    · exact ⟨name, origin, reference, elsewhere, held, missing⟩

section Drafts

open Generation (holding referenceTo convertWithin_holding)

/-- A schema object with one property, a text. -/
def texting (property : String) : Json :=
  .object [("type", .string "object"),
    ("properties", .object [(property, .object [("type", .string "string")])])]

/-- A draft has an owner, which is no component, and a text, which may be the owner again. -/
def draft (text : String) : Json :=
  .object [("allOf", .array [holding "owner" "Ghost", texting text])]

/-- A document with drafts. -/
def drafting (text : String) : Json :=
  .object [("components", .object [("schemas", .object [("Draft", draft text)])])]

theorem convertWithin_texting (property : String) :
    convertWithin components ∅ (texting property) =
      .ofKind (.object [⟨property, .ofKind (.string {})⟩] ∅) := by
  have text : convertWithin components ∅ (.object [("type", .string "string")]) =
      .ofKind (.string {}) := by
    have only : valueTypes (.object [("type", .string "string")]) = ["string"] := rfl
    rw [convertWithin_of_type (by simp [Json.get?, List.lookup_cons]) only, convertTyped, if_pos rfl]
    rfl
  have uncomposed : ∀ key ∈ ["$ref", "oneOf", "anyOf", "allOf"],
      (texting property).get? key = none := by
    simp [texting, Json.get?, List.lookup_cons]
  have declared : (texting property).get? "properties" =
      some (.object [(property, .object [("type", .string "string")])]) := rfl
  rw [convertWithin_of_type uncomposed rfl, convertTyped_object declared rfl, convertProperties,
    convertProperties, text]
  rfl

theorem holds_draft (text : String) : Holds (schemaPrefix ++ "Ghost") (draft text) := by
  have member : Part (draft text) (holding "owner" "Ghost") := .member rfl List.mem_cons_self
  have owner : Part (holding "owner" "Ghost") (referenceTo "Ghost") :=
    .property rfl List.mem_cons_self List.mem_cons_self
  exact .inside member (.inside owner (.here rfl))

/-- A draft keeps its owner next to a title. -/
theorem keeps_draft : Keeps components (schemaPrefix ++ "Ghost") (draft "title") := by
  have owner : KeepsUnder components (schemaPrefix ++ "Ghost") "owner" (holding "owner" "Ghost") :=
    .property rfl List.mem_cons_self (.here rfl)
  have read : Form.of (draft "title") =
      .composition ([] ++ holding "owner" "Ghost" :: [texting "title"]) := rfl
  refine .under (.member read owner ?_)
  rintro schema converted ⟨properties, object, listed⟩
  rw [convertMembers_eq_filterMap] at converted
  obtain rfl : schema = convertWithin components ∅ (texting "title") :=
    List.mem_singleton.1 converted
  rw [convertWithin_texting] at object
  cases object
  exact absurd listed (by decide)

theorem refName_ghost : refName (schemaPrefix ++ "Ghost") = "Ghost" := by decide +kernel

/-- The owner of the drafts leads nowhere, and fails the build. -/
theorem dangling_owner_fails :
    ∃ document errors, Document.ofJson (drafting "title") = .ok document ∧
      Build.ofDocument {} document = .error (.run (.resolution errors)) := by
  have distinct : (drafting "title").Distinct := by
    simp [drafting, draft, holding, texting, referenceTo]
  have loaded : Document.ofJson (drafting "title") = .ok ⟨none, registryOf _, usageOf _ _⟩ := rfl
  have valid : ({} : Settings).config = .ok {} := rfl
  have fails := (dangling_references_fail distinct loaded rfl valid).1 "Draft" (draft "title")
    (schemaPrefix ++ "Ghost") List.mem_cons_self keeps_draft (by rw [refName_ghost]; decide)
  obtain ⟨errors, failed⟩ := fails
  exact ⟨_, errors, loaded, failed⟩

/-- Of drafts with a text for an owner nothing is left that leads nowhere. -/
def draftRegistry : Registry :=
  .ofList [("Draft", .ofKind (.object [⟨"owner", .ofKind (.string {})⟩] ∅))]

theorem registryOf_drafting : registryOf [("Draft", draft "owner")] = draftRegistry := by
  have members : convertMembers [("Draft", draft "owner")] ∅
      [holding "owner" "Ghost", texting "owner"] =
        [.ofKind (.object [⟨"owner", .ofKind (.ref "Ghost")⟩] ∅),
          .ofKind (.object [⟨"owner", .ofKind (.string {})⟩] ∅)] := by
    rw [convertMembers_eq_filterMap]
    show [convertWithin _ ∅ (holding "owner" "Ghost"), convertWithin _ ∅ (texting "owner")] = _
    rw [convertWithin_holding refName_ghost, convertWithin_texting]
  have object : convertObject [("Draft", draft "owner")] ∅ (draft "owner") =
      .ofKind (.object [⟨"owner", .ofKind (.string {})⟩] ∅) := by
    rw [convertObject_eq_form]
    show Schema.ofKind (mergeObjects (convertMembers _ ∅ [holding "owner" "Ghost",
      texting "owner"])) = _
    rw [members]
    rfl
  show Registry.ofList [("Draft", convertWithin _ ∅ (draft "owner"))] = _
  rw [convertWithin]
  show Registry.ofList [("Draft", addMetadata (draft "owner") (convertObject _ ∅ _))] = _
  rw [object]
  rfl

theorem tryRun_drafts :
    Generation.tryRun {} draftRegistry ∅ = .ok (Generation.run {} draftRegistry ∅) := by
  refine Generation.tryRun_eq_ok_iff.2 ⟨?_, rfl⟩
  have closure : draftRegistry.closure "Draft" = .ok ∅ := Registry.closure_of_refs_eq_nil rfl rfl
  have closures : ClosureIndex.ofRegistry draftRegistry = ⟨NameMap.ofList [("Draft", .ok ∅)]⟩ := by
    show (⟨⟨[("Draft", draftRegistry.closure "Draft")], _⟩⟩ : ClosureIndex) = _
    simp only [closure]
    rfl
  show (SymbolTable.allocateAll (Generation.drafts {} draftRegistry).1 {}
    (Generation.drafts {} draftRegistry).2).2.outcome false = _
  unfold Generation.drafts
  rw [closures]
  decide +kernel

/-- The drafts hold a reference that names no component, but a build of the document succeeds: the
owner is declared again. -/
theorem not_dangling_owner_fails :
    ∃ document build, Document.ofJson (drafting "owner") = .ok document ∧
      OpenApi.components (drafting "owner") = .ok [("Draft", draft "owner")] ∧
        Holds (schemaPrefix ++ "Ghost") (draft "owner") ∧
          refName (schemaPrefix ++ "Ghost") ∉ ["Draft"] ∧
            Build.ofDocument {} document = .ok build := by
  have loaded : Document.ofJson (drafting "owner") = .ok ⟨none, draftRegistry, ∅⟩ := by
    rw [← registryOf_drafting]
    rfl
  exact ⟨_, _, loaded, rfl, holds_draft "owner", by rw [refName_ghost]; decide,
    Build.ofDocument_eq_ok_iff.2 ⟨{}, _, rfl, tryRun_drafts, rfl⟩⟩

end Drafts

end ZodModules.OpenApi
