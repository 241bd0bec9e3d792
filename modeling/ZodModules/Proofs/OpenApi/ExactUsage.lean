import ZodModules.Proofs.Json.Documents
import ZodModules.Proofs.OpenApi.ConversionOrder
import ZodModules.Proofs.OpenApi.Operations

/-!
# The usage of a document is exact

A tag is recorded for just the schemas that the operations under it use, each reference is followed
once on the way, and a document whose keys come in another order has the same usage. A document that
is read has each key once in each object (`distinct_of_parse?`), so it may be put in any order.
-/

namespace ZodModules

namespace Usage

variable {usage other : Usage}

/-- No schema is recorded without a tag. -/
def Tight (usage : Usage) : Prop :=
  ∀ schema tags, usage.tags? schema = some tags → ∃ tag, tag ∈ tags

theorem tight_empty : Tight ∅ := by
  intro schema tags found
  cases found

theorem Tight.record (tight : usage.Tight) (schema tag : String) :
    (usage.record schema tag).Tight := by
  intro name tags found
  have entry : (usage.record schema tag).tags? name =
      if name = schema then some (((usage.tags? schema).getD ∅).insert tag)
      else usage.tags? name := NameMap.get?_alter ..
  rw [entry] at found
  by_cases same : name = schema
  · rw [if_pos same, Option.some.injEq] at found
    exact ⟨tag, found ▸ NameSet.mem_insert.2 (Or.inl rfl)⟩
  · rw [if_neg same] at found
    exact tight name tags found

theorem Tight.recordClosure (tight : usage.Tight) (index : ClosureIndex) (schema tag : String) :
    (usage.recordClosure index schema tag).Tight := by
  unfold Usage.recordClosure
  generalize ((index.closure? schema).map NameSet.toList).getD [] = names
  have run (usage : Usage) (tight : usage.Tight) :
      (names.foldl (fun usage name => usage.record name tag) usage).Tight := by
    induction names generalizing usage with
    | nil => exact tight
    | cons name rest ih => exact ih _ (tight.record name tag)
  exact run _ (tight.record schema tag)

/-- A usage is determined by which tags use which schemas. -/
theorem ext_uses (tight : usage.Tight) (tight' : other.Tight)
    (same : ∀ tag schema, usage.Uses tag schema ↔ other.Uses tag schema) : usage = other := by
  have lead {usage other : Usage} (tight : usage.Tight)
      (same : ∀ tag schema, usage.Uses tag schema ↔ other.Uses tag schema) {schema : String}
      {tags : NameSet} (found : usage.tags? schema = some tags) :
      other.tags? schema = some tags := by
    obtain ⟨tag, member⟩ := tight schema tags found
    obtain ⟨tags', found', -⟩ := (same tag schema).1 ⟨tags, found, member⟩
    have equal : tags = tags' := by
      apply NameSet.ext_mem
      intro tag
      have uses := same tag schema
      unfold Uses at uses
      rw [found, found'] at uses
      simpa using uses
    rw [equal, found']
  have entries : usage.tags = other.tags := by
    apply NameMap.ext_get?
    intro schema
    apply Option.ext
    intro tags
    exact ⟨lead tight same, lead tight' fun tag schema => (same tag schema).symm⟩
  cases usage
  cases other
  cases entries
  rfl

end Usage

namespace OpenApi

open Json (Reordered)

section Order

variable {document document' item item' operation operation' : Json}

theorem Mentions.reorder {reference : String} {value value' : Json}
    (h : Mentions reference value) (same : value.Reordered value') : Mentions reference value' := by
  induction h generalizing value' with
  | ref declared =>
    cases same with
    | object distinct keys each =>
      obtain ⟨inside, declared', inner⟩ :=
        (Reordered.object distinct keys each).exists_member declared
      cases inner
      exact .ref declared'
  | member declared other _ ih =>
    cases same with
    | object distinct keys each =>
      obtain ⟨inside, declared', inner⟩ :=
        (Reordered.object distinct keys each).exists_member declared
      exact .member declared' other (ih inner)
  | item listed _ ih =>
    cases same with
    | array length each =>
      obtain ⟨index, found⟩ := List.getElem?_of_mem listed
      obtain ⟨inside, found', inner⟩ := (Reordered.array length each).exists_item found
      exact .item (List.mem_of_getElem? found') (ih inner)

/-- A segment leads to the same part, up to the order of keys. -/
theorem exists_child? {value value' part : Json} {segment : List Char}
    (same : value.Reordered value') (found : child? value segment = some part) :
    ∃ part', child? value' segment = some part' ∧ part.Reordered part' := by
  cases same with
  | object distinct keys each => exact (Reordered.object distinct keys each).get? found
  | array length each =>
    obtain ⟨index, named, listed⟩ := Option.bind_eq_some_iff.1 found
    obtain ⟨part', listed', inner⟩ := (Reordered.array length each).exists_item listed
    exact ⟨part', Option.bind_eq_some_iff.2 ⟨index, named, listed'⟩, inner⟩
  | _ => cases found

theorem exists_foldlM_child? {segments : List (List Char)} {value value' target : Json}
    (same : value.Reordered value') (found : segments.foldlM child? value = some target) :
    ∃ target', segments.foldlM child? value' = some target' ∧ target.Reordered target' := by
  induction segments generalizing value value' with
  | nil =>
    cases found
    exact ⟨value', rfl, same⟩
  | cons segment rest ih =>
    rw [List.foldlM_cons] at found
    obtain ⟨next, first, later⟩ := Option.bind_eq_some_iff.1 found
    obtain ⟨next', first', inner⟩ := exists_child? same first
    obtain ⟨target', later', reached⟩ := ih inner later
    refine ⟨target', ?_, reached⟩
    rw [List.foldlM_cons]
    exact Option.bind_eq_some_iff.2 ⟨next', first', later'⟩

/-- A pointer leads to the same part, up to the order of keys. -/
theorem exists_resolve? {pointer : String} {target : Json} (same : document.Reordered document')
    (found : resolve? document pointer = some target) :
    ∃ target', resolve? document' pointer = some target' ∧ target.Reordered target' := by
  unfold resolve? at found ⊢
  split at found
  · cases found
    exact ⟨document', rfl, same⟩
  · exact exists_foldlM_child? same found
  · cases found

theorem IsPart.reorder {part : Json} (ofItem : item.Reordered item')
    (ofOperation : operation.Reordered operation') (h : IsPart item operation part) :
    ∃ part', IsPart item' operation' part' ∧ part.Reordered part' := by
  rcases h with found | found | found | found
  · obtain ⟨part', found', inner⟩ := ofOperation.get? found
    exact ⟨part', Or.inl found', inner⟩
  · obtain ⟨part', found', inner⟩ := ofOperation.get? found
    exact ⟨part', Or.inr (Or.inl found'), inner⟩
  · obtain ⟨part', found', inner⟩ := ofOperation.get? found
    exact ⟨part', Or.inr (Or.inr (Or.inl found')), inner⟩
  · obtain ⟨part', found', inner⟩ := ofItem.get? found
    exact ⟨part', Or.inr (Or.inr (Or.inr found')), inner⟩

theorem Meets.reorder {reference : String} (same : document.Reordered document')
    (ofItem : item.Reordered item') (ofOperation : operation.Reordered operation')
    (h : Meets document item operation reference) : Meets document' item' operation' reference := by
  induction h with
  | start counts contained =>
    obtain ⟨part', counts', inner⟩ := counts.reorder ofItem ofOperation
    exact .start counts' (contained.reorder inner)
  | follow _ other inside found contained ih =>
    obtain ⟨target', found', inner⟩ := exists_resolve? same found
    exact .follow ih other inside found' (contained.reorder inner)

theorem HasOperation.reorder (same : document.Reordered document')
    (h : HasOperation document item operation) :
    ∃ item' operation', HasOperation document' item' operation' ∧ item.Reordered item' ∧
      operation.Reordered operation' := by
  obtain ⟨paths, route, method, found, declared, known, served⟩ := h
  obtain ⟨value, found', inner⟩ := same.get? found
  cases inner with
  | object distinct keys each =>
    obtain ⟨item', declared', ofItem⟩ :=
      (Reordered.object distinct keys each).exists_member declared
    obtain ⟨operation', served', ofOperation⟩ := ofItem.get? served
    exact ⟨item', operation', ⟨_, route, method, found', declared', known, served'⟩, ofItem,
      ofOperation⟩

theorem tagsOf_congr (same : operation.Reordered operation') :
    tagsOf operation = tagsOf operation' := by
  unfold tagsOf
  rcases same.get?_cases "tags" with ⟨missing, missing'⟩ | ⟨tags, tags', found, found', inner⟩
  · rw [missing, missing']
  · rw [found, found']
    cases inner with
    | array length each => exact Reordered.filterMap_string? (Reordered.array length each).forall₂_items
    | _ => rfl

end Order

section Components

variable {components components' : Components}

/-- The components of a document whose keys come in another order do so, too. -/
theorem exists_components {document document' : Json} (same : document.Reordered document')
    (listed : OpenApi.components document = .ok components) :
    ∃ components', OpenApi.components document' = .ok components' ∧
      (Json.object components).Reordered (.object components') := by
  have empty : (Json.object []).Reordered (.object []) :=
    .refl (.object List.nodup_nil fun _ empty => nomatch empty)
  cases same with
  | @object members members' distinct keys each =>
    have same := Reordered.object distinct keys each
    unfold OpenApi.components at listed ⊢
    simp only [Json.members?] at listed ⊢
    rcases same.get?_cases "components" with ⟨missing, missing'⟩ | ⟨part, part', found, found', inner⟩
    · rw [missing] at listed
      cases listed
      exact ⟨[], by rw [missing']; rfl, empty⟩
    · rw [found, Option.bind_some] at listed
      rw [found', Option.bind_some]
      rcases inner.get?_cases "schemas" with
        ⟨missing, missing'⟩ | ⟨schemas, schemas', found, found', within⟩
      · rw [missing] at listed
        cases listed
        exact ⟨[], by rw [missing'], empty⟩
      · rw [found] at listed
        rw [found']
        cases within with
        | object distinct keys each =>
          cases listed
          exact ⟨_, rfl, .object distinct keys each⟩
        | _ => cases listed
  | _ => cases listed

theorem get?_registryOf (distinct : (components.map Prod.fst).Nodup) (name : String) :
    (registryOf components).get? name =
      ((Json.object components).get? name).map (convert components) := by
  have keys : ((components.map fun entry => (entry.1, convert components entry.2)).map
      Prod.fst).Nodup := by
    rw [List.map_map]
    exact distinct
  show (NameMap.ofList _).get? name = (components.lookup name).map _
  rw [NameMap.get?_ofList keys]
  clear keys distinct
  generalize convert components = converted
  induction components with
  | nil => rfl
  | cons entry rest ih =>
    rw [List.map_cons, List.lookup_cons, List.lookup_cons]
    cases name == entry.1 with
    | true => rfl
    | false => exact ih

theorem contains_registryOf (distinct : (components.map Prod.fst).Nodup) (name : String) :
    (registryOf components).contains name = ((Json.object components).get? name).isSome := by
  show ((registryOf components).get? name).isSome = _
  rw [get?_registryOf distinct, Option.isSome_map]

/-- The same names are registered for components in another order. -/
theorem contains_registryOf_congr (named : (Json.object components).Reordered (.object components'))
    (name : String) :
    (registryOf components).contains name = (registryOf components').contains name := by
  rw [contains_registryOf named.nodup_keys, contains_registryOf named.symm.nodup_keys,
    named.isSome_get?]

/-- The schemas of components in another order refer to each other in the same way. -/
theorem refers_registryOf_congr
    (named : (Json.object components).Reordered (.object components')) :
    (registryOf components).Refers = (registryOf components').Refers := by
  have lead {components components' : Components}
      (named : (Json.object components).Reordered (.object components')) {source target : String}
      (h : (registryOf components).Refers source target) :
      (registryOf components').Refers source target := by
    obtain ⟨schema, registered, cited⟩ := h
    rw [get?_registryOf named.nodup_keys] at registered
    obtain ⟨value, found, rfl⟩ := Option.map_eq_some_iff.1 registered
    obtain ⟨value', found', inner⟩ := named.get? found
    refine ⟨convert components' value', ?_, ?_⟩
    · rw [get?_registryOf named.symm.nodup_keys, found', Option.map_some]
    · exact ((alike_convertWithin named inner).sameRefs target).1 cited
  funext source target
  exact propext ⟨lead named, lead named.symm⟩

/-- The closures of the schemas of components in another order have the same members. -/
theorem closure_registryOf_congr (named : (Json.object components).Reordered (.object components'))
    {name target : String} :
    (∃ reached, (registryOf components).closure name = .ok reached ∧ target ∈ reached) ↔
      ∃ reached, (registryOf components').closure name = .ok reached ∧ target ∈ reached := by
  rw [Registry.exists_closure_iff, Registry.exists_closure_iff]
  unfold Registry.Resolves Registry.Reaches
  simp only [refers_registryOf_congr named, contains_registryOf_congr named]

theorem UsesUnder.reorder {document document' : Json} {tag schema : String}
    (same : document.Reordered document')
    (named : (Json.object components).Reordered (.object components'))
    (h : UsesUnder document (registryOf components) tag schema) :
    UsesUnder document' (registryOf components') tag schema := by
  obtain ⟨item, operation, used, has, tagged, ⟨reference, met, names⟩, registered, reached⟩ := h
  obtain ⟨item', operation', has', ofItem, ofOperation⟩ := has.reorder same
  refine ⟨item', operation', used, has', ?_, ⟨reference, ?_, names⟩, ?_, ?_⟩
  · exact tagsOf_congr ofOperation ▸ tagged
  · exact met.reorder same ofItem ofOperation
  · exact contains_registryOf_congr named used ▸ registered
  · exact reached.imp_right (closure_registryOf_congr named).1

end Components

theorem tight_usageOf (document : Json) (registry : Registry) :
    (usageOf document registry).Tight := by
  unfold usageOf
  generalize documentUses document registry = uses
  have run (usage : Usage) (tight : usage.Tight) : (uses.foldl (fun usage use =>
      usage.recordClosure (.ofRegistry registry) use.1 use.2) usage).Tight := by
    induction uses generalizing usage with
    | nil => exact tight
    | cons use rest ih => exact ih _ (tight.recordClosure _ use.1 use.2)
  exact run ∅ Usage.tight_empty

/-- What is read from a document has the usage that its operations determine. -/
theorem exists_components_of_ofJson {content : Json} {document : Document}
    (loaded : Document.ofJson content = .ok document) :
    ∃ listed, components content = .ok listed ∧ document.registry = registryOf listed ∧
      document.usage = usageOf content document.registry := by
  unfold Document.ofJson at loaded
  cases found : components content with
  | error e =>
    rw [found] at loaded
    cases loaded
  | ok listed =>
    rw [found] at loaded
    cases loaded
    exact ⟨listed, rfl, rfl, rfl⟩

/-- The usage of a document holds a tag for just the schemas that an operation under it uses, by a
reference that it meets or from there through the closure of a registered schema. For each operation
just the references that it meets are taken up, each of them once, so the search ends also where
references lead in a circle. In another order of keys the document is read, too, and its usage is
the same. -/
theorem usage_is_exact {content : Json} {document : Document}
    (loaded : Document.ofJson content = .ok document) :
    (∀ tag schema, document.usage.Uses tag schema ↔
        UsesUnder content document.registry tag schema) ∧
      (∀ item operation, HasOperation content item operation →
        (taken content item operation).Nodup ∧
          (∀ reference, reference ∈ taken content item operation ↔
            Meets content item operation reference) ∧
          reachedSchemas content (operationReferences item operation) =
            .ofList ((taken content item operation).filterMap schemaName?)) ∧
      ∀ content', content.Reordered content' →
        ∃ document', Document.ofJson content' = .ok document' ∧
          document'.usage = document.usage := by
  obtain ⟨listed, found, registered, recorded⟩ := exists_components_of_ofJson loaded
  refine ⟨fun tag schema => ?_, fun item operation has => ?_, fun content' same => ?_⟩
  · rw [recorded]
    exact uses_usageOf
  · exact ⟨nodup_taken content item operation, fun reference => mem_taken_iff has, rfl⟩
  · obtain ⟨listed', found', named⟩ := exists_components same found
    refine ⟨_, by rw [Document.ofJson, found']; rfl, ?_⟩
    rw [recorded, registered]
    refine Usage.ext_uses (tight_usageOf _ _) (tight_usageOf _ _) fun tag schema => ?_
    rw [uses_usageOf, uses_usageOf]
    exact ⟨UsesUnder.reorder same.symm named.symm, UsesUnder.reorder same named⟩

/-- A response that refers to itself and to a schema. -/
def foundDog : Json :=
  .object [("next", .object [("$ref", .string "#/components/responses/Found")]),
    ("schema", .object [("$ref", .string "#/components/schemas/Dog")])]

/-- The one operation of the kennel. -/
def findDog : Json :=
  .object [("tags", .array [.string "Dogs"]),
    ("responses", .object [("$ref", .string "#/components/responses/Found")])]

/-- A document with one operation, one response and one schema. -/
def kennel : Json :=
  .object [("paths", .object [("/dogs", .object [("get", findDog)])]),
    ("components", .object [("schemas", .object [("Dog", .object [("type", .string "string")])]),
      ("responses", .object [("Found", foundDog)])])]

/-- The operation of the kennel meets the schema behind the response. -/
theorem meets_dog : Meets kennel (.object [("get", findDog)]) findDog "#/components/schemas/Dog" := by
  have response : Meets kennel (.object [("get", findDog)]) findDog
      "#/components/responses/Found" :=
    .start (Or.inr (Or.inl rfl)) (.ref List.mem_cons_self)
  have inside : after? "#" "#/components/responses/Found" = some "/components/responses/Found" := by
    decide +kernel
  have target : resolve? kennel "/components/responses/Found" = some foundDog := rfl
  refine .follow response (by decide +kernel) inside target ?_
  exact .member (List.mem_cons_of_mem _ List.mem_cons_self) (by decide) (.ref List.mem_cons_self)

/-- The kennel's operation uses its schema, whichever of paths and components come first. -/
theorem kennel_uses_dog :
    ∃ document document', Document.ofJson kennel = .ok document ∧
      Document.ofJson (.object (kennel.members?.getD []).reverse) = .ok document' ∧
      document.usage.Uses "Dogs" "Dog" ∧ document'.usage = document.usage := by
  have loaded : Document.ofJson kennel = .ok ⟨none, registryOf _, usageOf kennel _⟩ := rfl
  have distinct : kennel.Distinct := by simp [kennel, findDog, foundDog]
  obtain ⟨uses, -, reordered⟩ := usage_is_exact loaded
  obtain ⟨document', loaded', same⟩ :=
    reordered _ (Reordered.of_perm distinct (List.reverse_perm _).symm)
  refine ⟨_, document', loaded, loaded', (uses "Dogs" "Dog").2 ?_, same⟩
  refine ⟨_, findDog, "Dog", ⟨_, "/dogs", "get", rfl, List.mem_cons_self, by decide, rfl⟩, ?_,
    ⟨_, meets_dog, by decide +kernel⟩, ?_, Or.inl rfl⟩
  · decide
  · exact contains_registryOf (by decide) "Dog"

end OpenApi

end ZodModules
