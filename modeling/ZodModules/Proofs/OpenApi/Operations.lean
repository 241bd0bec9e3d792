import ZodModules.Proofs.Data.Listings
import ZodModules.Proofs.Entity.Spreading
import ZodModules.Proofs.OpenApi.Mentions

/-!
# What operations use

The references that an operation meets are those in its own parts, in the parameters of its path
item, and in whatever other references that it meets lead to. A search takes up each of them once,
so it ends also where references lead back to where they stand; and the usage of a document is
recorded for just the schemas that are named by what is met, and what these reach.
-/

namespace ZodModules.OpenApi

variable {document item operation : Json} {registry : Registry}

/-- A document has an operation for one of the methods of a path item. -/
def HasOperation (document item operation : Json) : Prop :=
  ∃ paths route method, document.get? "paths" = some (.object paths) ∧ (route, item) ∈ paths ∧
    method ∈ methods ∧ item.get? method = some operation

/-- A part of an operation of a path item, or of the path item, in which references count. -/
def IsPart (item operation part : Json) : Prop :=
  operation.get? "requestBody" = some part ∨ operation.get? "responses" = some part ∨
    operation.get? "parameters" = some part ∨ item.get? "parameters" = some part

/-- An operation of a path item meets a reference: in one of the parts that count, or in the part of
the document that a reference leads to which it meets and which names no schema. -/
inductive Meets (document item operation : Json) : String → Prop where
  | start {reference : String} {part : Json} (counts : IsPart item operation part)
      (contained : Mentions reference part) : Meets document item operation reference
  | follow {reference pointer next : String} {target : Json}
      (met : Meets document item operation reference) (other : schemaName? reference = none)
      (inside : after? "#" reference = some pointer)
      (found : resolve? document pointer = some target) (contained : Mentions next target) :
      Meets document item operation next

/-- An operation uses a schema by name: it meets a reference that names the schema. -/
def UsesName (document item operation : Json) (schema : String) : Prop :=
  ∃ reference, Meets document item operation reference ∧ schemaName? reference = some schema

/-- Under a tag a document uses a schema: some operation with that tag uses it, or uses a registered
schema whose closure it belongs to. -/
def UsesUnder (document : Json) (registry : Registry) (tag schema : String) : Prop :=
  ∃ item operation used, HasOperation document item operation ∧ tag ∈ tagsOf operation ∧
    UsesName document item operation used ∧ registry.contains used ∧
    (schema = used ∨ ∃ reached, registry.closure used = .ok reached ∧ schema ∈ reached)

/-- The references that are taken up for an operation, in turn. -/
def taken (document item operation : Json) : List String :=
  Graph.explore (nextReferences document) (strings document).eraseDups
    (operationReferences item operation)

theorem mem_operationReferences {reference : String} :
    reference ∈ operationReferences item operation ↔
      ∃ part, IsPart item operation part ∧ Mentions reference part := by
  unfold operationReferences IsPart
  simp only [List.mem_flatMap, List.mem_append, List.mem_filterMap, Option.mem_toList,
    mem_references_iff]
  refine exists_congr fun part => and_congr_left fun _ => ?_
  simp [or_assoc]

theorem mem_nextReferences {reference next : String} :
    next ∈ nextReferences document reference ↔
      schemaName? reference = none ∧ ∃ pointer target, after? "#" reference = some pointer ∧
        resolve? document pointer = some target ∧ Mentions next target := by
  unfold nextReferences
  cases named : schemaName? reference with
  | some schema => simp
  | none =>
    cases inside : after? "#" reference with
    | none => simp
    | some pointer =>
      cases found : resolve? document pointer with
      | none => simp [found]
      | some target => simp [found, mem_references_iff]

/-- What counts for an operation is part of the document. -/
theorem mem_strings_of_isPart {text : String} {part : Json}
    (has : HasOperation document item operation) (counts : IsPart item operation part)
    (inside : text ∈ strings part) : text ∈ strings document := by
  obtain ⟨paths, route, method, listed, declared, -, served⟩ := has
  apply mem_strings_of_get? listed
  apply mem_strings_of_member declared
  rcases counts with found | found | found | found
  · exact mem_strings_of_get? served (mem_strings_of_get? found inside)
  · exact mem_strings_of_get? served (mem_strings_of_get? found inside)
  · exact mem_strings_of_get? served (mem_strings_of_get? found inside)
  · exact mem_strings_of_get? found inside

theorem Meets.mem_strings {reference : String} (has : HasOperation document item operation)
    (h : Meets document item operation reference) : reference ∈ strings document := by
  cases h with
  | start counts contained => exact mem_strings_of_isPart has counts contained.mem_strings
  | follow met other inside found contained =>
    exact mem_strings_of_resolve? found contained.mem_strings

/-- Just the references that an operation meets are taken up for it. -/
theorem mem_taken_iff {reference : String} (has : HasOperation document item operation) :
    reference ∈ taken document item operation ↔ Meets document item operation reference := by
  constructor
  · intro member
    obtain ⟨source, waiting, -, path⟩ := Graph.sound_explore member
    clear member
    induction path with
    | refl =>
      obtain ⟨part, counts, contained⟩ := mem_operationReferences.1 waiting
      exact .start counts contained
    | tail before step ih =>
      obtain ⟨other, pointer, target, inside, found, contained⟩ := mem_nextReferences.1 step.1
      exact .follow ih other inside found contained
  · intro met
    have enter {reference : String} (met : Meets document item operation reference) :
        reference ∈ (strings document).eraseDups :=
      List.mem_eraseDups.2 (met.mem_strings has)
    obtain ⟨done, closed⟩ := Graph.closed_explore (nextReferences document)
      (strings document).eraseDups (operationReferences item operation)
    induction met with
    | start counts contained =>
      exact done _ (mem_operationReferences.2 ⟨_, counts, contained⟩)
        (enter (.start counts contained))
    | follow met other inside found contained ih =>
      have next := mem_nextReferences.2 ⟨other, _, _, inside, found, contained⟩
      exact closed _ ih _ ⟨next, enter (.follow met other inside found contained)⟩

/-- The search for an operation takes up each reference once, so it ends. -/
theorem nodup_taken (document item operation : Json) : (taken document item operation).Nodup :=
  Graph.nodup_explore (Listing.nodup_eraseDups _)

theorem mem_reachedSchemas {schema : String} (has : HasOperation document item operation) :
    schema ∈ reachedSchemas document (operationReferences item operation) ↔
      UsesName document item operation schema := by
  show schema ∈ NameSet.ofList ((taken document item operation).filterMap schemaName?) ↔ _
  rw [NameSet.mem_ofList, List.mem_filterMap]
  exact exists_congr fun reference => and_congr_left fun _ => mem_taken_iff has

theorem mem_operationUses {schema tag : String} (has : HasOperation document item operation) :
    (schema, tag) ∈ operationUses document registry item operation ↔
      tag ∈ tagsOf operation ∧ UsesName document item operation schema ∧
        registry.contains schema := by
  unfold operationUses
  by_cases untagged : (tagsOf operation).isEmpty
  · rw [if_pos untagged, List.isEmpty_iff.1 untagged]
    simp
  · rw [if_neg untagged, List.mem_flatMap]
    simp only [NameSet.mem_toList, NameSet.mem_filter, mem_reachedSchemas has, List.mem_map,
      Prod.mk.injEq]
    constructor
    · rintro ⟨used, ⟨uses, registered⟩, other, tagged, rfl, rfl⟩
      exact ⟨tagged, uses, registered⟩
    · rintro ⟨tagged, uses, registered⟩
      exact ⟨schema, ⟨uses, registered⟩, tag, tagged, rfl, rfl⟩

theorem mem_pathItems : item ∈ pathItems document ↔
    ∃ paths route, document.get? "paths" = some (.object paths) ∧ (route, item) ∈ paths := by
  unfold pathItems
  cases found : document.get? "paths" with
  | none => simp
  | some value => cases value <;> simp [Json.members?]

theorem mem_documentUses {schema tag : String} :
    (schema, tag) ∈ documentUses document registry ↔
      ∃ item operation, HasOperation document item operation ∧ tag ∈ tagsOf operation ∧
        UsesName document item operation schema ∧ registry.contains schema := by
  unfold documentUses
  simp only [List.mem_flatMap, List.mem_filterMap]
  constructor
  · rintro ⟨item, listed, operation, ⟨method, known, served⟩, used⟩
    obtain ⟨paths, route, found, declared⟩ := mem_pathItems.1 listed
    have has : HasOperation document item operation :=
      ⟨paths, route, method, found, declared, known, served⟩
    exact ⟨item, operation, has, (mem_operationUses has).1 used⟩
  · rintro ⟨item, operation, has, used⟩
    have used := (mem_operationUses has).2 used
    obtain ⟨paths, route, method, found, declared, known, served⟩ := has
    exact ⟨item, mem_pathItems.2 ⟨paths, route, found, declared⟩, operation,
      ⟨method, known, served⟩, used⟩

/-- What recording some uses with their closures adds. -/
theorem uses_foldl_recordClosure {uses : List (String × String)} {usage : Usage}
    {tag schema : String} :
    (uses.foldl (fun usage use => usage.recordClosure (.ofRegistry registry) use.1 use.2)
        usage).Uses tag schema ↔
      (∃ used, (used, tag) ∈ uses ∧
        (schema = used ∨ ∃ reached, registry.closure used = .ok reached ∧ schema ∈ reached)) ∨
      usage.Uses tag schema := by
  induction uses generalizing usage with
  | nil => simp
  | cons use rest ih =>
    obtain ⟨first, other⟩ := use
    rw [List.foldl_cons, ih, Usage.uses_recordClosure, ← Registry.exists_closure_iff]
    simp only [List.mem_cons, Prod.mk.injEq, or_and_right, exists_or, or_assoc]
    constructor
    · rintro (later | ⟨rfl, now⟩ | earlier)
      · exact Or.inr (Or.inl later)
      · exact Or.inl ⟨first, ⟨rfl, rfl⟩, now⟩
      · exact Or.inr (Or.inr earlier)
    · rintro (⟨used, ⟨rfl, rfl⟩, now⟩ | later | earlier)
      · exact Or.inr (Or.inl ⟨rfl, now⟩)
      · exact Or.inl later
      · exact Or.inr (Or.inr earlier)

/-- The usage of a document is what its operations use and what that reaches. -/
theorem uses_usageOf {tag schema : String} :
    (usageOf document registry).Uses tag schema ↔ UsesUnder document registry tag schema := by
  have start : ¬ (∅ : Usage).Uses tag schema := Usage.not_uses_empty
  unfold usageOf
  rw [uses_foldl_recordClosure]
  simp only [start, or_false, mem_documentUses]
  constructor
  · rintro ⟨used, ⟨item, operation, has, tagged, uses, registered⟩, reached⟩
    exact ⟨item, operation, used, has, tagged, uses, registered, reached⟩
  · rintro ⟨item, operation, used, has, tagged, uses, registered, reached⟩
    exact ⟨used, ⟨item, operation, has, tagged, uses, registered⟩, reached⟩

end ZodModules.OpenApi
