import ZodModules.Entity.Assignment
import ZodModules.OpenApi.Document
import ZodModules.Proofs.Order.Exploration
import ZodModules.Proofs.Registry.Reachability

/-!
# Usage spreads along references

A use of a schema is recorded along with uses of all that the schema reaches. So a tag that uses a
schema which resolves uses whatever that schema refers to, too, and what a schema of one tag refers
to belongs to the entity of that tag or to the shared one.
-/

namespace ZodModules

namespace Usage

variable {registry : Registry} {usage : Usage} {schema tag other name : String}

/-- A tag uses a schema. -/
def Uses (usage : Usage) (tag schema : String) : Prop :=
  ∃ tags, usage.tags? schema = some tags ∧ tag ∈ tags

theorem not_uses_empty : ¬ (∅ : Usage).Uses tag schema := by
  rintro ⟨tags, found, -⟩
  cases found

theorem uses_record :
    (usage.record schema tag).Uses other name ↔
      other = tag ∧ name = schema ∨ usage.Uses other name := by
  have entry : (usage.record schema tag).tags? name =
      if name = schema then some (((usage.tags? schema).getD ∅).insert tag)
      else usage.tags? name := NameMap.get?_alter ..
  unfold Uses
  rw [entry]
  by_cases same : name = schema
  · subst same
    cases usage.tags? name <;> simp
  · simp [same]

theorem uses_foldl_record {names : List String} :
    (names.foldl (fun usage name => usage.record name tag) usage).Uses other name ↔
      other = tag ∧ name ∈ names ∨ usage.Uses other name := by
  induction names generalizing usage with
  | nil => simp
  | cons first rest ih =>
    rw [List.foldl_cons, ih, uses_record, List.mem_cons, and_or_left, or_assoc]
    exact or_left_comm

/-- Recording a schema with its closure adds uses of the schema and, if it resolves, of what it
reaches. -/
theorem uses_recordClosure :
    (usage.recordClosure (.ofRegistry registry) schema tag).Uses other name ↔
      other = tag ∧ (name = schema ∨
        (registry.contains schema ∧ registry.Resolves schema) ∧ registry.Reaches schema name) ∨
      usage.Uses other name := by
  have listed : name ∈ (((ClosureIndex.ofRegistry registry).closure? schema).map
      NameSet.toList).getD [] ↔
        (registry.contains schema ∧ registry.Resolves schema) ∧ registry.Reaches schema name := by
    rw [← ClosureIndex.reaches_ofRegistry, ClosureIndex.reaches]
    cases (ClosureIndex.ofRegistry registry).closure? schema <;> simp [NameSet.contains]
  rw [recordClosure, uses_foldl_record, listed, uses_record, and_or_left, or_assoc]
  exact or_left_comm

/-- A tag that uses a schema which resolves uses what that schema refers to. -/
def IsClosed (registry : Registry) (usage : Usage) : Prop :=
  ∀ tag source target, usage.Uses tag source → registry.Resolves source →
    registry.Refers source target → usage.Uses tag target

theorem isClosed_empty : IsClosed registry ∅ :=
  fun _ _ _ uses => absurd uses not_uses_empty

theorem IsClosed.recordClosure (closed : IsClosed registry usage) (schema tag : String) :
    IsClosed registry (usage.recordClosure (.ofRegistry registry) schema tag) := by
  intro other source target uses resolves refers
  rw [uses_recordClosure] at uses ⊢
  have registered : registry.contains source := by
    obtain ⟨schema, found, -⟩ := refers
    exact Registry.contains_of_get? found
  rcases uses with ⟨same, rfl | ⟨ready, reaches⟩⟩ | earlier
  · exact Or.inl ⟨same, Or.inr ⟨⟨registered, resolves⟩, .single refers⟩⟩
  · exact Or.inl ⟨same, Or.inr ⟨ready, reaches.tail refers⟩⟩
  · exact Or.inr (closed other source target earlier resolves refers)

end Usage

namespace EntityAssignment

open Usage

variable {registry : Registry} {usage : Usage} {shared source target : String}

/-- Outside of the shared entity a schema has just one tag, whose entity it belongs to. -/
theorem exists_tag_of_ownerOf_ne (apart : ownerOf usage shared source ≠ shared) :
    ∃ tag, ownerOf usage shared source = Naming.entityName tag ∧
      ∀ other, usage.Uses other source ↔ other = tag := by
  unfold ownerOf at apart ⊢
  unfold Uses
  rcases found : usage.tags? source with _ | ⟨tags, sorted⟩
  · simp [found] at apart
  · rcases tags with _ | ⟨tag, _ | ⟨second, rest⟩⟩
    · simp [found] at apart
    · refine ⟨tag, rfl, fun other => ⟨?_, ?_⟩⟩
      · rintro ⟨_, same, inside⟩
        cases same
        exact List.mem_singleton.1 inside
      · rintro rfl
        exact ⟨_, rfl, List.mem_singleton_self _⟩
    · simp [found] at apart

/-- A schema that a tag uses belongs to the entity of that tag or to the shared one. -/
theorem ownerOf_of_uses {tag : String} (uses : usage.Uses tag source) :
    ownerOf usage shared source = Naming.entityName tag ∨
      ownerOf usage shared source = shared := by
  by_cases apart : ownerOf usage shared source = shared
  · exact Or.inr apart
  · obtain ⟨only, owner, users⟩ := exists_tag_of_ownerOf_ne apart
    rw [owner, (users tag).1 uses]
    exact Or.inl rfl

/-- A schema that just one tag uses belongs to the entity of that tag. -/
theorem ownerOf_of_only {tag : String} (uses : usage.Uses tag source)
    (only : ∀ other, usage.Uses other source → other = tag) :
    ownerOf usage shared source = Naming.entityName tag := by
  obtain ⟨⟨tags, sorted⟩, found, member⟩ := uses
  have same (other : String) (inside : other ∈ tags) : other = tag :=
    only other ⟨_, found, inside⟩
  unfold ownerOf
  rcases tags with _ | ⟨first, _ | ⟨second, rest⟩⟩
  · cases member
  · rw [found, ← same first List.mem_cons_self]
    rfl
  · have twice : first = second := (same first List.mem_cons_self).trans
      (same second (List.mem_cons_of_mem _ List.mem_cons_self)).symm
    have increasing : first < second := (List.pairwise_cons.1 sorted).1 second List.mem_cons_self
    exact absurd twice (String.ne_of_lt increasing)

/-- What a schema outside of the shared entity refers to belongs to the entity of that schema or to
the shared one. -/
theorem ownerOf_of_refers (closed : usage.IsClosed registry) (resolves : registry.Resolves source)
    (refers : registry.Refers source target) (apart : ownerOf usage shared source ≠ shared) :
    ownerOf usage shared target = ownerOf usage shared source ∨
      ownerOf usage shared target = shared := by
  obtain ⟨tag, owner, users⟩ := exists_tag_of_ownerOf_ne apart
  rw [owner]
  exact ownerOf_of_uses (closed tag source target ((users tag).2 rfl) resolves refers)

/-- Of the shared entity only schemas that no tag uses refer to one outside of it. -/
theorem not_uses_of_refers (closed : usage.IsClosed registry) (resolves : registry.Resolves source)
    (refers : registry.Refers source target) (inside : ownerOf usage shared source = shared)
    (apart : ownerOf usage shared target ≠ shared) (tag : String) : ¬ usage.Uses tag source := by
  intro uses
  obtain ⟨only, owner, users⟩ := exists_tag_of_ownerOf_ne apart
  have all (other : String) (uses : usage.Uses other source) : other = only :=
    (users other).1 (closed other source target uses resolves refers)
  have same : ownerOf usage shared source = Naming.entityName only :=
    ownerOf_of_only (all tag uses ▸ uses) all
  rw [inside, ← owner] at same
  exact apart same.symm

end EntityAssignment

namespace OpenApi

/-- A reference to a schema leads to that schema only. -/
theorem reachedSchemas_of_schemaName {document : Json} {reference schema : String}
    (named : schemaName? reference = some schema) (present : reference ∈ strings document) :
    reachedSchemas document [reference] = .ofList [schema] := by
  have leaf : nextReferences document reference = [] := by
    rw [nextReferences, named]
  rw [reachedSchemas, Graph.explore_leaf (List.mem_eraseDups.2 present) leaf,
    List.filterMap_cons_some named, List.filterMap_nil]

/-- What the operations of a document use is closed under references. -/
theorem isClosed_usageOf (document : Json) (registry : Registry) :
    Usage.IsClosed registry (usageOf document registry) := by
  have spread (uses : List (String × String)) (usage : Usage)
      (closed : Usage.IsClosed registry usage) :
      Usage.IsClosed registry (uses.foldl (fun usage use =>
        usage.recordClosure (.ofRegistry registry) use.1 use.2) usage) := by
    induction uses generalizing usage with
    | nil => exact closed
    | cons use rest ih => exact ih _ (closed.recordClosure use.1 use.2)
  exact spread _ ∅ Usage.isClosed_empty

/-- The usage that is read from a document is closed under references. -/
theorem isClosed_of_ofJson {content : Json} {document : Document}
    (loaded : Document.ofJson content = .ok document) :
    document.usage.IsClosed document.registry := by
  unfold Document.ofJson at loaded
  cases schemas : components content with
  | error e =>
    rw [schemas] at loaded
    cases loaded
  | ok listed =>
    rw [schemas] at loaded
    cases loaded
    exact isClosed_usageOf content _

end OpenApi

end ZodModules
