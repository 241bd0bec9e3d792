import ZodModules.Entity.Assignment
import ZodModules.Proofs.Registry.Reachability

/-!
# The partition into entities

An assignment splits the registered schemas: each has one entity, and an entity lists, by name, just
the schemas that it is the entity of.
-/

namespace ZodModules.EntityAssignment

variable {usage : Usage} {shared : String}

/-- Placing some schemas gives each its entity and leaves those of all others. -/
theorem get?_owners_foldl_place (names : List String) (assignment : EntityAssignment)
    (schema : String) :
    (names.foldl (fun a name => a.place name (ownerOf usage shared name)) assignment).owners.get?
        schema =
      if schema ∈ names then some (ownerOf usage shared schema)
      else assignment.owners.get? schema := by
  induction names generalizing assignment with
  | nil => simp
  | cons name rest ih =>
    rw [List.foldl_cons, ih]
    by_cases later : schema ∈ rest
    · rw [if_pos later, if_pos (List.mem_cons_of_mem _ later)]
    · rw [if_neg later]
      show (assignment.owners.insert name (ownerOf usage shared name)).get? schema = _
      rw [NameMap.get?_insert]
      by_cases now : schema = name
      · rw [if_pos now, if_pos (now ▸ List.mem_cons_self), now]
      · have absent : schema ∉ name :: rest := by
          rw [List.mem_cons]
          exact not_or.2 ⟨now, later⟩
        rw [if_neg now, if_neg absent]

/-- Placing some schemas adds those of an entity, in order, to what the entity lists. -/
theorem getD_entities_foldl_place (names : List String) (assignment : EntityAssignment)
    (entity : String) :
    ((names.foldl (fun a name => a.place name (ownerOf usage shared name)) assignment).entities.get?
        entity).getD [] =
      (assignment.entities.get? entity).getD [] ++
        names.filter (ownerOf usage shared · == entity) := by
  induction names generalizing assignment with
  | nil => simp
  | cons name rest ih =>
    rw [List.foldl_cons, ih]
    show ((assignment.entities.alter (ownerOf usage shared name) _).get? entity).getD [] ++ _ = _
    rw [NameMap.get?_alter]
    by_cases own : entity = ownerOf usage shared name
    · rw [if_pos own, List.filter_cons_of_pos (by simp [own]), own]
      simp
    · rw [if_neg own, List.filter_cons_of_neg (by simpa using Ne.symm own)]

/-- Placing some schemas adds entities of these only. -/
theorem entity_of_foldl_place {names : List String} {assignment : EntityAssignment} {entity : String}
    (known : ((names.foldl (fun a name => a.place name (ownerOf usage shared name))
      assignment).entities.get? entity).isSome) :
    (assignment.entities.get? entity).isSome ∨
      ∃ name ∈ names, ownerOf usage shared name = entity := by
  induction names generalizing assignment with
  | nil => exact Or.inl known
  | cons name rest ih =>
    rcases ih known with earlier | ⟨later, member, owner⟩
    · change ((assignment.entities.alter (ownerOf usage shared name) _).get? entity).isSome at earlier
      rw [NameMap.get?_alter] at earlier
      by_cases own : entity = ownerOf usage shared name
      · exact Or.inr ⟨name, List.mem_cons_self, own.symm⟩
      · rw [if_neg own] at earlier
        exact Or.inl earlier
    · exact Or.inr ⟨later, List.mem_cons_of_mem _ member, owner⟩

section OfUsage

variable (registry : Registry) (usage : Usage) (shared : String)

theorem get?_owners_ofUsage (schema : String) :
    (ofUsage registry usage shared).owners.get? schema =
      if registry.contains schema then some (ownerOf usage shared schema) else none := by
  unfold ofUsage
  rw [get?_owners_foldl_place]
  have registered : schema ∈ registry.names.toList ↔ registry.contains schema :=
    Registry.mem_names_iff
  by_cases known : registry.contains schema
  · rw [if_pos (registered.2 known), if_pos known]
  · rw [if_neg (mt registered.1 known), if_neg known]
    rfl

theorem members_ofUsage (entity : String) :
    (ofUsage registry usage shared).members entity =
      registry.names.toList.filter (ownerOf usage shared · == entity) := by
  show ((ofUsage registry usage shared).entities.get? entity).getD [] = _
  unfold ofUsage
  rw [getD_entities_foldl_place]
  have start : (((∅ : NameMap (List String)).insert shared []).get? entity).getD [] = [] := by
    rw [NameMap.get?_insert]
    split <;> rfl
  show (((∅ : NameMap (List String)).insert shared []).get? entity).getD [] ++ _ = _
  rw [start, List.nil_append]

variable {registry usage shared}

/-- An entity lists the registered schemas whose entity it is. -/
theorem mem_entity_iff {entity : String} {schemas : List String}
    (listed : (entity, schemas) ∈ (ofUsage registry usage shared).entities.entries)
    {schema : String} :
    schema ∈ schemas ↔ (ofUsage registry usage shared).owners.get? schema = some entity := by
  have all := members_ofUsage registry usage shared entity
  unfold members at all
  rw [NameMap.mem_entries_iff.1 listed, Option.getD_some] at all
  rw [all, List.mem_filter, get?_owners_ofUsage, NameSet.mem_toList, Registry.mem_names_iff,
    beq_iff_eq]
  by_cases known : registry.contains schema
  · simp [known]
  · simp [known]

theorem nodup_entity {entity : String} {schemas : List String}
    (listed : (entity, schemas) ∈ (ofUsage registry usage shared).entities.entries) :
    schemas.Nodup := by
  have all := members_ofUsage registry usage shared entity
  unfold members at all
  rw [NameMap.mem_entries_iff.1 listed, Option.getD_some] at all
  rw [all]
  exact (registry.names.sorted.imp fun h => String.ne_of_lt h).filter _

/-- Other than the shared one there are entities of registered schemas only. -/
theorem shared_or_owner {entity : String} {schemas : List String}
    (listed : (entity, schemas) ∈ (ofUsage registry usage shared).entities.entries) :
    entity = shared ∨
      ∃ schema, registry.contains schema ∧ ownerOf usage shared schema = entity := by
  have known : ((ofUsage registry usage shared).entities.get? entity).isSome := by
    rw [NameMap.mem_entries_iff.1 listed]
    rfl
  rcases entity_of_foldl_place known with start | ⟨schema, member, owner⟩
  · rw [NameMap.get?_insert] at start
    by_cases same : entity = shared
    · exact Or.inl same
    · rw [if_neg same] at start
      cases start
  · exact Or.inr ⟨schema, Registry.mem_names_iff.1 member, owner⟩

/-- The entity of a registered schema is one of the entities. -/
theorem exists_entity_of_contains (usage : Usage) (shared : String) {schema : String}
    (registered : registry.contains schema) :
    ∃ entity schemas, (entity, schemas) ∈ (ofUsage registry usage shared).entities.entries ∧
      (ofUsage registry usage shared).owners.get? schema = some entity := by
  have owner := get?_owners_ofUsage registry usage shared schema
  rw [if_pos registered] at owner
  have all := members_ofUsage registry usage shared (ownerOf usage shared schema)
  unfold members at all
  cases found : (ofUsage registry usage shared).entities.get? (ownerOf usage shared schema) with
  | none =>
    have listed : schema ∈ registry.names.toList.filter
        (ownerOf usage shared · == ownerOf usage shared schema) :=
      List.mem_filter.2 ⟨Registry.mem_names_iff.2 registered, by simp⟩
    rw [← all, found] at listed
    simp at listed
  | some schemas => exact ⟨_, schemas, NameMap.mem_entries_iff.2 found, owner⟩

end OfUsage

end ZodModules.EntityAssignment
