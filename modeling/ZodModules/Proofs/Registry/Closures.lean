import ZodModules.Proofs.Registry.Reachability

/-!
# Closures are reachability

What it is for a schema to refer to a name, said without listing its references, and what the
closure of a name is in these terms: what one or more references lead to, unless some reference on
the way is to an unregistered name.
-/

namespace ZodModules

open Relation (TransGen ReflTransGen)

namespace Schema

/-- A schema refers to a name: it is a reference to it, or one of its parts refers to it. -/
inductive Cites (target : String) : Schema → Prop where
  | ref {metadata : Metadata} : Cites target ⟨.ref target, metadata⟩
  | property {properties : List (Property Schema)} {required : NameSet} {metadata : Metadata}
      {property : Property Schema} (declared : property ∈ properties)
      (cited : Cites target property.schema) : Cites target ⟨.object properties required, metadata⟩
  | value {value : Schema} {metadata : Metadata} (cited : Cites target value) :
      Cites target ⟨.record value, metadata⟩
  | items {items : Schema} {metadata : Metadata} (cited : Cites target items) :
      Cites target ⟨.array (some items), metadata⟩
  | branch {branches : List Schema} {discriminator : Option String} {metadata : Metadata}
      {branch : Schema} (declared : branch ∈ branches) (cited : Cites target branch) :
      Cites target ⟨.oneOf branches discriminator, metadata⟩

theorem mem_propertyRefs {target : String} {properties : List (Property Schema)} :
    target ∈ propertyRefs properties ↔ ∃ property ∈ properties, target ∈ property.schema.refs := by
  induction properties with
  | nil => simp [propertyRefs]
  | cons property rest ih => simp [propertyRefs, ih]

theorem mem_branchRefs {target : String} {branches : List Schema} :
    target ∈ branchRefs branches ↔ ∃ branch ∈ branches, target ∈ branch.refs := by
  induction branches with
  | nil => simp [branchRefs]
  | cons branch rest ih => simp [branchRefs, ih]

theorem Cites.mem_refs {target : String} {schema : Schema} (h : Cites target schema) :
    target ∈ schema.refs := by
  induction h with
  | ref => exact List.mem_singleton_self _
  | property declared _ ih => exact mem_propertyRefs.2 ⟨_, declared, ih⟩
  | value _ ih => exact ih
  | items _ ih => exact ih
  | branch declared _ ih => exact mem_branchRefs.2 ⟨_, declared, ih⟩

mutual

/-- Whatever is listed among the references of a schema, the schema refers to. -/
theorem cites_of_mem_refs {target : String} :
    ∀ schema : Schema, target ∈ schema.refs → Cites target schema
  | ⟨.object properties _, _⟩, h => by
    rw [refs] at h
    obtain ⟨property, declared, cited⟩ := exists_property_of_mem_refs properties h
    exact .property declared cited
  | ⟨.record value, _⟩, h => by
    rw [refs] at h
    exact .value (cites_of_mem_refs value h)
  | ⟨.array (some items), _⟩, h => by
    rw [refs] at h
    exact .items (cites_of_mem_refs items h)
  | ⟨.oneOf branches _, _⟩, h => by
    rw [refs] at h
    obtain ⟨branch, declared, cited⟩ := exists_branch_of_mem_refs branches h
    exact .branch declared cited
  | ⟨.ref _, _⟩, h => by
    rw [refs, List.mem_singleton] at h
    rw [h]
    exact .ref
  | ⟨.string _, _⟩, h | ⟨.number _, _⟩, h | ⟨.boolean, _⟩, h | ⟨.null, _⟩, h
  | ⟨.array none, _⟩, h => by
    rw [refs] at h
    cases h

/-- The same for the properties of an object. -/
theorem exists_property_of_mem_refs {target : String} :
    ∀ properties : List (Property Schema), target ∈ propertyRefs properties →
      ∃ property ∈ properties, Cites target property.schema
  | [], h => by
    rw [propertyRefs] at h
    cases h
  | ⟨name, schema⟩ :: rest, h => by
    rw [propertyRefs, List.mem_append] at h
    rcases h with own | later
    · exact ⟨⟨name, schema⟩, List.mem_cons_self, cites_of_mem_refs schema own⟩
    · obtain ⟨property, declared, cited⟩ := exists_property_of_mem_refs rest later
      exact ⟨property, List.mem_cons_of_mem _ declared, cited⟩

/-- The same for the branches of a union. -/
theorem exists_branch_of_mem_refs {target : String} :
    ∀ branches : List Schema, target ∈ branchRefs branches → ∃ branch ∈ branches, Cites target branch
  | [], h => by
    rw [branchRefs] at h
    cases h
  | schema :: rest, h => by
    rw [branchRefs, List.mem_append] at h
    rcases h with own | later
    · exact ⟨schema, List.mem_cons_self, cites_of_mem_refs schema own⟩
    · obtain ⟨branch, declared, cited⟩ := exists_branch_of_mem_refs rest later
      exact ⟨branch, List.mem_cons_of_mem _ declared, cited⟩

end

theorem mem_refs_iff {target : String} {schema : Schema} :
    target ∈ schema.refs ↔ Cites target schema :=
  ⟨cites_of_mem_refs schema, Cites.mem_refs⟩

end Schema

namespace Registry

/-- The schema registered under a name contains a reference to another name. -/
def Cites (registry : Registry) (source target : String) : Prop :=
  ∃ schema, registry.get? source = some schema ∧ schema.Cites target

theorem refers_eq_cites (registry : Registry) : registry.Refers = registry.Cites := by
  funext source target
  exact propext (exists_congr fun _ => and_congr_right fun _ => Schema.mem_refs_iff)

/-- A name has a closure exactly if it is registered and no schema within its reach, itself
included, contains a reference to an unregistered name. The closure then holds what one or more
references lead to, and the name itself only if it lies on a cycle. The error of a registered name
tells such a reference and the schema that contains it. -/
theorem closure_is_reachability (registry : Registry) (name : String) :
    ((∃ reached, registry.closure name = .ok reached) ↔
      registry.contains name ∧
        ∀ source target, ReflTransGen registry.Cites name source → registry.Cites source target →
          registry.contains target) ∧
    (∀ reached, registry.closure name = .ok reached →
      ∀ target, target ∈ reached ↔ TransGen registry.Cites name target) ∧
    (∀ e, registry.closure name = .error e → registry.contains name →
      ReflTransGen registry.Cites name e.schema ∧ registry.Cites e.schema e.reference ∧
        ¬ registry.contains e.reference) := by
  rw [← refers_eq_cites]
  refine ⟨closure_isOk_iff, ?_, ?_⟩
  · intro reached found target
    exact mem_closure_iff found
  · intro e failed registered
    exact refers_of_closure_error registered failed

end Registry

end ZodModules
