import ZodModules.Proofs.Expr.MappingEnums
import ZodModules.Proofs.Generation.Modules
import ZodModules.Proofs.Model.EnumNumbers

/-!
# Names of enums in a run

The enums of generated models are collected one by one under distinct constants, so each takes part
in the allocation of names by itself.
-/

namespace ZodModules.Generation

open Mapping Model SymbolTable

variable {config : Config} {registry : Registry}

theorem extends_threads {scope : Scope} {properties : List (Schema.Property Schema)}
    {before after : State} {values : List Mapped}
    (threads : Threads scope properties before values after) : Extends scope before after := by
  induction threads with
  | nil => exact .of_eq rfl
  | cons first _ ih => exact (extends_mapValue first).trans ih

theorem extends_generateRoot {scope : Scope} {indent : String} {schema : Schema}
    {before after : State} {root : Root}
    (run : Yields (generateRoot scope indent schema) before root after) :
    Extends scope before after := by
  rcases generateRoot_cases run with
    ⟨properties, required, metadata, values, -, threads, -⟩ | ⟨-, mapped, mapping, -⟩
  · exact extends_threads threads
  · exact extends_mapValue mapping

/-- The enums of a generated model are the collected ones. -/
theorem collected_generate {name : String} {schema : Schema} {closures : ClosureIndex}
    {generated : Generated} (ok : generate config name schema registry closures = .ok generated) :
    Collected (scopeOf config name registry closures) generated.model.enums := by
  obtain ⟨root, state, run, rfl⟩ := generate_eq_ok_iff.1 ok
  exact (extends_generateRoot run).collected collected_nil

theorem collected_draft {name : String} {draft : Model}
    (found : (drafts config registry).1.get? name = some draft) :
    Collected (scopeOf config name registry (ClosureIndex.ofRegistry registry)) draft.enums := by
  obtain ⟨schema, diagnostics, -, -, ok⟩ := get?_drafts_iff.1 found
  exact collected_generate ok

/-- The numbers that the enums of a run get. -/
def enumAllocations (config : Config) (registry : Registry) : List Allocation :=
  allocations (claimed config (drafts config registry).1 (drafts config registry).2).1
    (declarations (drafts config registry).1)

theorem get?_newNames (schema name : String) :
    (newNames config registry schema).get? name =
      newName? ((enumAllocations config registry).foldl Allocation.note ∅) schema name :=
  get?_renamesOf schema name

theorem distinctEnums_of_collected {scope : Scope} {model : Model}
    (collected : Collected scope model.enums) : model.DistinctEnums :=
  ⟨collected.distinct, fun _ member _ member' => collected.constant_ne_type member member'⟩

theorem distinctEnums_draft (name : String) (draft : Model)
    (found : (drafts config registry).1.get? name = some draft) : draft.DistinctEnums :=
  distinctEnums_of_collected (collected_draft found)

/-- The enums of a model have distinct constants from the beginning. -/
theorem nodup_constants_draft {name : String} {draft : Model}
    (found : (drafts config registry).1.get? name = some draft) :
    (draft.enums.filterMap NameSpace.values.enumName?).Nodup := by
  rw [filterMap_constant]
  exact (collected_draft found).distinct

end ZodModules.Generation
