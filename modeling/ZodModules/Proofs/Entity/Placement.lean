import ZodModules.Proofs.Entity.Partition
import ZodModules.Proofs.Entity.Spreading
import Mathlib.Data.List.Nodup
import Mathlib.Tactic.ByContra

/-!
# Every schema has one place

The lists of all entities together hold each registered schema once and nothing else. A schema that
exactly one tag uses is listed under the entity of that tag, any other under the shared one, which is
there even if it lists nothing.
-/

namespace ZodModules.EntityAssignment

open Usage

variable {registry : Registry} {usage : Usage} {shared : String}

/-- Just one tag uses a schema. -/
def OnlyUser (usage : Usage) (tag schema : String) : Prop :=
  ∀ other, usage.Uses other schema ↔ other = tag

/-- An assignment gives each registered schema its place. -/
structure Partitions (registry : Registry) (usage : Usage) (shared : String)
    (assignment : EntityAssignment) : Prop where
  /-- All lists together hold each registered schema once. -/
  listed : (assignment.entities.entries.flatMap Prod.snd).Perm registry.names.toList
  /-- The entity of a schema is the one that lists it. -/
  inverse : ∀ schema entity,
    assignment.owners.get? schema = some entity ↔ schema ∈ assignment.members entity
  tagged : ∀ schema tag, registry.contains schema → OnlyUser usage tag schema →
    assignment.owners.get? schema = some (Naming.entityName tag)
  untagged : ∀ schema, registry.contains schema → (¬ ∃ tag, OnlyUser usage tag schema) →
    assignment.owners.get? schema = some shared
  present : assignment.entities.contains shared
  inhabited : ∀ entity schemas, assignment.entities.get? entity = some schemas →
    entity ≠ shared → schemas ≠ []

theorem mem_members_iff {schema entity : String} :
    schema ∈ (ofUsage registry usage shared).members entity ↔
      (ofUsage registry usage shared).owners.get? schema = some entity := by
  rw [members_ofUsage, get?_owners_ofUsage, List.mem_filter, NameSet.mem_toList,
    Registry.mem_names_iff, beq_iff_eq]
  by_cases registered : registry.contains schema
  · simp [registered]
  · simp [registered]

/-- The lists of different entities have no schema in common, and none repeats one. -/
theorem nodup_listed (registry : Registry) (usage : Usage) (shared : String) :
    ((ofUsage registry usage shared).entities.entries.flatMap Prod.snd).Nodup := by
  rw [List.nodup_flatMap]
  refine ⟨fun entry listed => nodup_entity listed, ?_⟩
  have keys : ((ofUsage registry usage shared).entities.entries.map Prod.fst).Nodup :=
    NameMap.nodup_keys _
  apply (List.Nodup.of_map _ keys).pairwise_of_forall_ne
  intro first of_first second of_second different schema inside inside'
  have owner := (mem_entity_iff of_first).1 inside
  have owner' := (mem_entity_iff of_second).1 inside'
  rw [owner, Option.some.injEq] at owner'
  exact different (List.inj_on_of_nodup_map keys of_first of_second owner')

theorem mem_listed_iff {schema : String} :
    schema ∈ (ofUsage registry usage shared).entities.entries.flatMap Prod.snd ↔
      registry.contains schema := by
  rw [List.mem_flatMap]
  constructor
  · rintro ⟨entry, listed, inside⟩
    have owner := (mem_entity_iff listed).1 inside
    rw [get?_owners_ofUsage] at owner
    by_contra missing
    rw [if_neg missing] at owner
    cases owner
  · intro registered
    obtain ⟨entity, schemas, listed, owner⟩ := exists_entity_of_contains usage shared registered
    exact ⟨(entity, schemas), listed, (mem_entity_iff listed).2 owner⟩

theorem ownerOf_of_onlyUser {tag schema : String} (only : OnlyUser usage tag schema) :
    ownerOf usage shared schema = Naming.entityName tag :=
  ownerOf_of_only ((only tag).2 rfl) fun other uses => (only other).1 uses

theorem ownerOf_of_not_onlyUser {schema : String} (several : ¬ ∃ tag, OnlyUser usage tag schema) :
    ownerOf usage shared schema = shared := by
  by_contra apart
  obtain ⟨tag, -, users⟩ := exists_tag_of_ownerOf_ne apart
  exact several ⟨tag, users⟩

theorem contains_shared (registry : Registry) (usage : Usage) (shared : String) :
    (ofUsage registry usage shared).entities.contains shared := by
  have start : ((∅ : NameMap (List String)).insert shared []).contains shared := by
    simp [NameMap.contains, NameMap.get?_insert]
  unfold ofUsage
  generalize registry.names.toList = names
  have kept (assignment : EntityAssignment) (known : assignment.entities.contains shared) :
      (names.foldl (fun a name => a.place name (ownerOf usage shared name))
        assignment).entities.contains shared := by
    induction names generalizing assignment with
    | nil => exact known
    | cons name rest ih =>
      apply ih
      show ((assignment.entities.alter (ownerOf usage shared name) _).get? shared).isSome
      rw [NameMap.get?_alter]
      split
      · rfl
      · exact known
  exact kept _ start

/-- Schemas are assigned to entities without loss, repetition or misplacement. -/
theorem partitions_ofUsage (registry : Registry) (usage : Usage) (shared : String) :
    (ofUsage registry usage shared).Partitions registry usage shared where
  listed := by
    have distinct : registry.names.toList.Nodup :=
      registry.names.sorted.imp fun less => String.ne_of_lt less
    rw [List.perm_ext_iff_of_nodup (nodup_listed registry usage shared) distinct]
    intro schema
    rw [mem_listed_iff, NameSet.mem_toList, Registry.mem_names_iff]
  inverse schema entity := mem_members_iff.symm
  tagged := by
    intro schema tag registered only
    rw [get?_owners_ofUsage, if_pos registered, ownerOf_of_onlyUser only]
  untagged := by
    intro schema registered several
    rw [get?_owners_ofUsage, if_pos registered, ownerOf_of_not_onlyUser several]
  present := contains_shared registry usage shared
  inhabited := by
    intro entity schemas found apart empty
    have listed := NameMap.mem_entries_iff.2 found
    obtain ⟨schema, registered, owner⟩ := (shared_or_owner listed).resolve_left apart
    have inside : schema ∈ schemas := by
      rw [mem_entity_iff listed, get?_owners_ofUsage, if_pos registered, owner]
    rw [empty] at inside
    cases inside

end ZodModules.EntityAssignment
