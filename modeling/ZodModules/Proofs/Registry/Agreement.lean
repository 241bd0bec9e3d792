import ZodModules.Proofs.Registry.Reachability

/-!
# Registries that agree on what a name leads to

Two registries may have the same schemas under a name and under all that references lead to from
there. Then the name resolves in both or in neither and leads to the same names in both, whatever
else is registered.
-/

namespace ZodModules.Registry

open Relation (TransGen ReflTransGen)

variable {registry other : Registry} {name target : String}

/-- Two registries have the same under a name and under all names that it leads to in the first. -/
def AgreeFrom (registry other : Registry) (name : String) : Prop :=
  ∀ target, ReflTransGen registry.Refers name target → registry.get? target = other.get? target

theorem agreeFrom_of_closure {reached : NameSet} (closure : registry.closure name = .ok reached)
    (own : registry.get? name = other.get? name)
    (same : ∀ target ∈ reached, registry.get? target = other.get? target) :
    registry.AgreeFrom other name := by
  intro target leads
  rcases Relation.reflTransGen_iff_eq_or_transGen.1 leads with rfl | reaches
  · exact own
  · exact same target ((mem_closure_iff closure).2 reaches)

namespace AgreeFrom

theorem get? (agree : registry.AgreeFrom other name) : registry.get? name = other.get? name :=
  agree name .refl

theorem contains (agree : registry.AgreeFrom other name) :
    registry.contains name = other.contains name := by
  show (registry.get? name).isSome = (other.get? name).isSome
  rw [agree.get?]

theorem of_leads (agree : registry.AgreeFrom other name)
    (leads : ReflTransGen registry.Refers name target) : registry.AgreeFrom other target :=
  fun next after => agree next (leads.trans after)

theorem refers_iff (agree : registry.AgreeFrom other name) :
    registry.Refers name target ↔ other.Refers name target := by
  unfold Refers
  rw [agree.get?]

/-- The second registry leads nowhere that the first does not lead to. -/
theorem leads (agree : registry.AgreeFrom other name)
    (leads : ReflTransGen other.Refers name target) : ReflTransGen registry.Refers name target := by
  induction leads with
  | refl => exact .refl
  | tail _ last ih => exact ih.tail ((agree.of_leads ih).refers_iff.2 last)

theorem symm (agree : registry.AgreeFrom other name) : other.AgreeFrom registry name :=
  fun target leads => (agree target (agree.leads leads)).symm

theorem reaches (agree : registry.AgreeFrom other name) (h : registry.Reaches name target) :
    other.Reaches name target := by
  obtain ⟨last, before, refers⟩ := TransGen.tail'_iff.1 h
  exact TransGen.tail' (agree.symm.leads before) ((agree.of_leads before).refers_iff.1 refers)

theorem resolves (agree : registry.AgreeFrom other name) (resolves : registry.Resolves name) :
    other.Resolves name := by
  intro source target before refers
  have before := agree.leads before
  have refers := (agree.of_leads before).refers_iff.2 refers
  rw [← (agree.of_leads (before.tail refers)).contains]
  exact resolves source target before refers

/-- The closures of either registry say the same of where the name leads. -/
theorem reaches_ofRegistry (agree : registry.AgreeFrom other name) (target : String) :
    (ClosureIndex.ofRegistry registry).reaches name target =
      (ClosureIndex.ofRegistry other).reaches name target := by
  have lead {registry other : Registry} (agree : registry.AgreeFrom other name)
      (h : (ClosureIndex.ofRegistry registry).reaches name target) :
      (ClosureIndex.ofRegistry other).reaches name target := by
    obtain ⟨⟨registered, resolves⟩, reaches⟩ := ClosureIndex.reaches_ofRegistry.1 h
    exact ClosureIndex.reaches_ofRegistry.2
      ⟨⟨agree.contains ▸ registered, agree.resolves resolves⟩, agree.reaches reaches⟩
  rw [Bool.eq_iff_iff]
  exact ⟨lead agree, lead agree.symm⟩

end AgreeFrom

end ZodModules.Registry
