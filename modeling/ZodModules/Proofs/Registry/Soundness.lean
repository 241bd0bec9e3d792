import ZodModules.Proofs.Registry.Agreement
import ZodModules.Proofs.Registry.Closures

/-!
# Schemas that fail to resolve

A name fails if references lead from it to one under which nothing is registered. What the names
that do not fail lead to is decided by their schemas alone: registries that have these in common
agree about them, whatever else is registered.
-/

namespace ZodModules

open Relation (ReflTransGen)

namespace Registry

variable {registry other : Registry}

/-- The schema registered under a name contains a reference to an unregistered name. -/
def Dangles (registry : Registry) (source target : String) : Prop :=
  registry.Cites source target ∧ ¬ registry.contains target

/-- A name is registered, or leads, to a schema with a reference to an unregistered name. -/
def Fails (registry : Registry) (name : String) : Prop :=
  ∃ source target, ReflTransGen registry.Cites name source ∧ registry.Dangles source target

theorem resolves_iff_not_fails {name : String} : registry.Resolves name ↔ ¬ registry.Fails name := by
  unfold Resolves Fails Dangles
  rw [refers_eq_cites]
  constructor
  · rintro resolves ⟨source, target, reached, cites, missing⟩
    exact missing (resolves source target reached cites)
  · intro sound source target reached cites
    exact Classical.byContradiction fun missing => sound ⟨source, target, reached, cites, missing⟩

/-- Two registries have the same schemas that do not fail. -/
def SameSound (registry other : Registry) : Prop :=
  ∀ name schema, registry.get? name = some schema ∧ ¬ registry.Fails name ↔
    other.get? name = some schema ∧ ¬ other.Fails name

namespace SameSound

variable {name : String}

theorem symm (same : registry.SameSound other) : other.SameSound registry :=
  fun name schema => (same name schema).symm

theorem get? (same : registry.SameSound other) (registered : registry.contains name)
    (resolves : registry.Resolves name) : registry.get? name = other.get? name := by
  obtain ⟨schema, found⟩ := Option.isSome_iff_exists.1 registered
  have found : registry.get? name = some schema := found
  rw [found, ((same name schema).1 ⟨found, resolves_iff_not_fails.1 resolves⟩).1]

theorem resolves (same : registry.SameSound other) (registered : registry.contains name)
    (resolves : registry.Resolves name) : other.contains name ∧ other.Resolves name := by
  obtain ⟨schema, found⟩ := Option.isSome_iff_exists.1 registered
  obtain ⟨found', sound⟩ := (same name schema).1 ⟨found, resolves_iff_not_fails.1 resolves⟩
  exact ⟨contains_of_get? found', resolves_iff_not_fails.2 sound⟩

/-- The registries agree on all that a schema that does not fail leads to. -/
theorem agreeFrom (same : registry.SameSound other) (registered : registry.contains name)
    (resolves : registry.Resolves name) : registry.AgreeFrom other name := by
  intro target leads
  rcases Relation.reflTransGen_iff_eq_or_transGen.1 leads with rfl | reaches
  · exact same.get? registered resolves
  · exact same.get? (resolves.contains reaches) (resolves.of_reaches reaches)

end SameSound

end Registry

end ZodModules
