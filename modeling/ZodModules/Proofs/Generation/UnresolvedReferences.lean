import ZodModules.Proofs.Generation.Failures
import ZodModules.Proofs.Registry.Walks

/-!
# The references that a run fails with

A run fails with references that lead nowhere, but not with all of them: of each schema it reports
the first one that the walk from there meets, be it in that schema or in another that it leads to.
-/

namespace ZodModules

open Relation (ReflTransGen)

/-- What a list of errors tells of the references of a registry that lead nowhere. -/
structure Registry.ListsFirst (registry : Registry) (errors : List ResolutionError) : Prop where
  ordered : errors.Pairwise ResolutionError.Before
  nodup : errors.Nodup
  dangles : ∀ e ∈ errors, registry.Dangles e.schema e.reference
  first : ∀ e, e ∈ errors ↔
    ∃ name, registry.contains name ∧ registry.firstDangling? name = some (e.schema, e.reference)
  /-- Each schema that leads to such a reference has one of those it leads to listed. -/
  reached : ∀ name, registry.contains name → registry.Fails name →
    ∃ e ∈ errors, ReflTransGen registry.Cites name e.schema
  /-- A reference is not left out for the sake of another if its schema leads to no other. -/
  sole : ∀ source target, registry.Dangles source target →
    (∀ source' target', ReflTransGen registry.Cites source source' →
      registry.Dangles source' target' → source' = source ∧ target' = target) →
    ⟨source, target⟩ ∈ errors

namespace Generation

variable {config : Config} {registry : Registry} {usage : Usage}

/-- A run fails with the first references that the walks from its schemas meet. -/
theorem mem_unresolved_run_iff_first {e : ResolutionError} :
    e ∈ (run config registry usage).report.unresolved ↔
      ∃ name, registry.contains name ∧
        registry.firstDangling? name = some (e.schema, e.reference) := by
  rw [mem_unresolved_run_iff]
  refine exists_congr fun name => ?_
  rw [resolutions_run]
  by_cases registered : registry.contains name
  · rw [if_pos registered, ← Registry.closure_eq_error_iff registered]
    cases registry.closure name <;> simp [registered]
  · simp [registered]

/-- A run that fails because references lead nowhere lists of each schema the first such reference
that the walk from there meets, and no others; the walk takes up all references that the schema
leads to. -/
theorem first_unresolved_are_listed (config : Config) (registry : Registry) (usage : Usage)
    (strict : Bool) (errors : List ResolutionError)
    (failed : (run config registry usage).report.outcome strict = .error (.resolution errors)) :
    registry.ListsFirst errors ∧
      ∀ name citation, citation ∈ registry.walk name ↔
        ReflTransGen registry.Cites name citation.1 ∧
          registry.Cites citation.1 citation.2 := by
  obtain ⟨-, rfl⟩ := Report.outcome_eq_resolution_iff.1 failed
  have reached : ∀ name, registry.contains name → registry.Fails name →
      ∃ e ∈ (run config registry usage).report.unresolved,
        ReflTransGen registry.Cites name e.schema ∧ registry.Dangles e.schema e.reference := by
    intro name registered fails
    obtain ⟨⟨source, target⟩, first⟩ := Registry.exists_firstDangling?_iff.2 fails
    exact ⟨⟨source, target⟩, mem_unresolved_run_iff_first.2 ⟨name, registered, first⟩,
      Registry.dangles_of_firstDangling? first⟩
  refine ⟨⟨Report.before_unresolved _, Listing.nodup_eraseDups _, ?_, ?_, ?_, ?_⟩,
    fun _ _ => Registry.mem_walk_iff⟩
  · intro e member
    obtain ⟨name, -, first⟩ := mem_unresolved_run_iff_first.1 member
    exact (Registry.dangles_of_firstDangling? first).2
  · exact fun e => mem_unresolved_run_iff_first
  · intro name registered fails
    obtain ⟨e, member, leads, -⟩ := reached name registered fails
    exact ⟨e, member, leads⟩
  · intro source target dangles sole
    obtain ⟨⟨source', target'⟩, member, leads, dangles'⟩ :=
      reached source dangles.contains ⟨source, target, .refl, dangles⟩
    obtain ⟨rfl, rfl⟩ := sole source' target' leads dangles'
    exact member

section LooseOrder

/-- An order refers to a customer and to a product, neither of which is registered. -/
def looseOrder : Registry :=
  .ofList [("Order", .ofKind (.object [⟨"customer", .ofKind (.ref "Customer")⟩,
    ⟨"product", .ofKind (.ref "Product")⟩] ∅))]

theorem dangles_looseOrder :
    looseOrder.Dangles "Order" "Customer" ∧ looseOrder.Dangles "Order" "Product" :=
  ⟨⟨⟨_, rfl, .property List.mem_cons_self .ref⟩, by decide +kernel⟩,
    ⟨⟨_, rfl, .property (List.mem_cons_of_mem _ List.mem_cons_self) .ref⟩, by decide +kernel⟩⟩

theorem firstDangling?_looseOrder :
    looseOrder.firstDangling? "Order" = some ("Order", "Customer") := by
  have own : looseOrder.citationsOf "Order" = [("Order", "Customer"), ("Order", "Product")] := rfl
  have alone : (looseOrder.names.erase "Order").toList = [] := by decide +kernel
  rw [Registry.firstDangling?, Registry.walk, own, alone, Registry.trail,
    dif_neg List.not_mem_nil, List.find?_cons_of_pos (by decide +kernel)]

theorem contains_looseOrder_iff {name : String} : looseOrder.contains name ↔ name = "Order" := by
  rw [← Registry.mem_names_iff]
  show name ∈ ["Order"] ↔ _
  rw [List.mem_singleton]

theorem outcome_looseOrder :
    (run {} looseOrder ∅).report.outcome false =
      .error (.resolution [⟨"Order", "Customer"⟩]) := by
  have members (e : ResolutionError) :
      e ∈ (run {} looseOrder ∅).report.unresolved ↔ e ∈ [⟨"Order", "Customer"⟩] := by
    rw [mem_unresolved_run_iff_first, List.mem_singleton]
    constructor
    · rintro ⟨name, registered, first⟩
      obtain rfl := contains_looseOrder_iff.1 registered
      rw [firstDangling?_looseOrder] at first
      cases e
      simpa using first.symm
    · rintro rfl
      exact ⟨"Order", contains_looseOrder_iff.2 rfl, firstDangling?_looseOrder⟩
  have perm := (List.perm_ext_iff_of_nodup (Listing.nodup_eraseDups _) (List.nodup_singleton _)).2
    members
  have listed : (run {} looseOrder ∅).report.unresolved = _ := List.perm_singleton.1 perm
  rw [Report.outcome_eq_resolution_iff, listed]
  exact ⟨List.cons_ne_nil _ _, rfl⟩

/-- The run on the order lists the customer, which is where the walk from the order first leads
nowhere. -/
theorem customer_listed :
    looseOrder.ListsFirst [⟨"Order", "Customer"⟩] ∧
      ("Order", "Product") ∈ looseOrder.walk "Order" := by
  obtain ⟨lists, walks⟩ := first_unresolved_are_listed {} looseOrder ∅ false _ outcome_looseOrder
  exact ⟨lists, (walks "Order" ("Order", "Product")).2 ⟨.refl, dangles_looseOrder.2.1⟩⟩

/-- The product leads nowhere as well, but the run does not list it. -/
theorem product_not_listed :
    (run {} looseOrder ∅).report.outcome false = .error (.resolution [⟨"Order", "Customer"⟩]) ∧
      looseOrder.Dangles "Order" "Product" :=
  ⟨outcome_looseOrder, dangles_looseOrder.2⟩

end LooseOrder

end Generation

end ZodModules
