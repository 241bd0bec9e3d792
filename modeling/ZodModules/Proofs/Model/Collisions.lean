import ZodModules.Proofs.Model.Claiming

/-!
# Collisions of schemas

Which collisions are found among models that stand in the order of their schemas: those of a schema
with the first one in that order from which the same name follows in the same space.
-/

namespace ZodModules

/-- A name in a space follows from the name of a schema with one of the models. -/
def NameSpace.Derives (space : NameSpace) (config : Config) (models : List Model)
    (schema name : String) : Prop :=
  ∃ model ∈ models, model.name = schema ∧ name ∈ space.derived config model

/-- In one of the spaces the name follows from both schemas, and from none before the first one. -/
def SymbolCollision.Occurs (config : Config) (models : List Model) (e : SymbolCollision) : Prop :=
  ∃ space : NameSpace, space.Derives config models e.schema e.symbol ∧
    space.Derives config models e.first e.symbol ∧ e.first < e.schema ∧
    ∀ schema < e.first, ¬ space.Derives config models schema e.symbol

variable {space : NameSpace} {config : Config} {models : List Model}

namespace NameSpace

theorem exists_of_deriver? {name first : String}
    (found : space.deriver? config models name = some first) :
    space.Derives config models first name := by
  obtain ⟨model, finds, rfl⟩ := Option.map_eq_some_iff.1 found
  have derived := List.find?_some finds
  exact ⟨model, List.mem_of_find?_eq_some finds, rfl, List.contains_iff_mem.1 derived⟩

theorem deriver?_isSome_iff {name : String} :
    (space.deriver? config models name).isSome ↔
      ∃ schema, space.Derives config models schema name := by
  constructor
  · intro present
    obtain ⟨first, found⟩ := Option.isSome_iff_exists.1 present
    exact ⟨first, exists_of_deriver? found⟩
  · rintro ⟨_, model, member, rfl, derived⟩
    exact deriver?_isSome member derived

section Sorted

variable (sorted : models.Pairwise (·.name < ·.name))

include sorted

/-- The first claimant comes first of all schemas from which the name follows. -/
theorem not_derives_of_lt {name first : String}
    (found : space.deriver? config models name = some first) {schema : String}
    (before : schema < first) : ¬ space.Derives config models schema name := by
  rintro ⟨other, member, rfl, derived⟩
  obtain ⟨model, finds, rfl⟩ := Option.map_eq_some_iff.1 found
  obtain ⟨-, earlier, later, rfl, rejected⟩ := List.find?_eq_some_iff_append.1 finds
  obtain ⟨-, next, -⟩ := List.pairwise_append.1 sorted
  rcases List.mem_append.1 member with inside | inside
  · have missing := rejected other inside
    rw [List.contains_iff_mem.2 derived] at missing
    cases missing
  · rcases List.mem_cons.1 inside with rfl | inside
    · exact String.lt_irrefl _ before
    · exact String.lt_asymm before ((List.pairwise_cons.1 next).1 other inside)

theorem deriver?_eq_some_iff {name first : String} :
    space.deriver? config models name = some first ↔
      space.Derives config models first name ∧
        ∀ schema < first, ¬ space.Derives config models schema name := by
  constructor
  · intro found
    exact ⟨exists_of_deriver? found, fun schema before => not_derives_of_lt sorted found before⟩
  · rintro ⟨derives, least⟩
    obtain ⟨other, found⟩ := Option.isSome_iff_exists.1 (deriver?_isSome_iff.2 ⟨first, derives⟩)
    have not_before : ¬ other < first := fun before => least other before (exists_of_deriver? found)
    have not_after : ¬ first < other := fun after => not_derives_of_lt sorted found after derives
    have same : other = first := by
      by_contra different
      exact not_after (NameSet.lt_of_not_lt_of_ne not_before different)
    rw [found, same]

end Sorted

/-- What follows from the schemas before that of a model. -/
theorem derives_earlier_iff {earlier later : List Model} {model : Model}
    (sorted : (earlier ++ model :: later).Pairwise (·.name < ·.name)) {schema name : String} :
    space.Derives config earlier schema name ↔
      space.Derives config (earlier ++ model :: later) schema name ∧ schema < model.name := by
  obtain ⟨-, next, before⟩ := List.pairwise_append.1 sorted
  constructor
  · rintro ⟨other, member, rfl, derived⟩
    exact ⟨⟨other, List.mem_append_left _ member, rfl, derived⟩,
      before other member model List.mem_cons_self⟩
  · rintro ⟨⟨other, member, rfl, derived⟩, less⟩
    rcases List.mem_append.1 member with inside | inside
    · exact ⟨other, inside, rfl, derived⟩
    · rcases List.mem_cons.1 inside with rfl | inside
      · exact absurd less (String.lt_irrefl _)
      · exact absurd less (String.lt_asymm ((List.pairwise_cons.1 next).1 other inside))

end NameSpace

namespace SymbolTable

/-- The collisions that are found are those that occur. -/
theorem mem_allClashes_iff_occurs (sorted : models.Pairwise (·.name < ·.name))
    {e : SymbolCollision} : e ∈ allClashes config ∅ models ↔ e.Occurs config models := by
  have untaken (space : NameSpace) (name : String) :
      (space.taken (∅ : SymbolTable)).get? name = none := by
    cases space <;> rfl
  simp only [mem_allClashes_iff, untaken, Option.none_or]
  constructor
  · rintro ⟨-, space, earlier, model, later, rfl, own, derived, found⟩
    have least (schema : String) (before : schema < e.first) :=
      NameSpace.not_derives_of_lt (List.pairwise_append.1 sorted).1 found before
    obtain ⟨derives, less⟩ :=
      (NameSpace.derives_earlier_iff sorted).1 (NameSpace.exists_of_deriver? found)
    refine ⟨space, ⟨model, List.mem_append_right _ List.mem_cons_self, own.symm, derived⟩, derives,
      own ▸ less, ?_⟩
    intro schema before other
    exact least schema before
      ((NameSpace.derives_earlier_iff sorted).2 ⟨other, String.lt_trans before less⟩)
  · rintro ⟨space, ⟨model, member, own, derived⟩, derives, less, least⟩
    obtain ⟨earlier, later, rfl⟩ := List.append_of_mem member
    refine ⟨fun same => String.lt_irrefl _ (same ▸ less), space, earlier, model, later, rfl,
      own.symm, derived, ?_⟩
    refine (NameSpace.deriver?_eq_some_iff (List.pairwise_append.1 sorted).1).2 ⟨?_, ?_⟩
    · exact (NameSpace.derives_earlier_iff sorted).2 ⟨derives, own ▸ less⟩
    · intro schema before other
      exact least schema before ((NameSpace.derives_earlier_iff sorted).1 other).1

/-- The models of a map in which each stands under its own name are in order. -/
theorem sorted_values {models : NameMap Model}
    (named : ∀ name model, models.get? name = some model → model.name = name) :
    models.values.Pairwise (·.name < ·.name) := by
  have names : models.values.map (·.name) = models.entries.map Prod.fst := by
    unfold NameMap.values
    rw [List.map_map]
    exact List.map_congr_left fun entry member => named _ _ (NameMap.mem_entries_iff.1 member)
  have sorted := models.sorted
  rw [← names] at sorted
  exact List.pairwise_map.1 sorted

end SymbolTable

end ZodModules
