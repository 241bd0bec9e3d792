import ZodModules.Data.NameMap
import ZodModules.Schema.Basic

/-!
# Registry of schemas

The named schemas of a document and what they reach. The closure of a schema holds the names that
one or more references lead to, itself only if a cycle leads back; it is found by a depth-first
search, which fails at the first reference to a name that is not registered.
-/

namespace ZodModules

/-- A schema refers to a name under which nothing is registered. -/
structure ResolutionError where
  schema : String
  reference : String
deriving DecidableEq

namespace ResolutionError

/-- The wording of the error. -/
def message (e : ResolutionError) : String :=
  "Schema '" ++ e.schema ++ "' references unknown schema '" ++ e.reference ++ "'"

/-- Whether an error is listed no later than another: by schema, then by reference. -/
def le (a b : ResolutionError) : Bool :=
  a.schema < b.schema || (a.schema == b.schema && !(b.reference < a.reference))

end ResolutionError

/-- Schemas by name. -/
structure Registry where
  schemas : NameMap Schema

namespace Registry

instance : EmptyCollection Registry := ⟨⟨∅⟩⟩

/-- Registers a schema, in place of an earlier one of that name. -/
def register (registry : Registry) (name : String) (schema : Schema) : Registry :=
  ⟨registry.schemas.insert name schema⟩

/-- The registry of a list of named schemas; of two with one name the later counts. -/
def ofList (schemas : List (String × Schema)) : Registry := ⟨NameMap.ofList schemas⟩

/-- The schema registered under a name. -/
def get? (registry : Registry) (name : String) : Option Schema := registry.schemas.get? name

/-- Whether a name is registered. -/
def contains (registry : Registry) (name : String) : Bool := registry.schemas.contains name

/-- The registered names. -/
def names (registry : Registry) : NameSet := registry.schemas.keys

/-- The references of a schema, each with the schema that makes it. -/
def citations (name : String) (schema : Schema) : List (String × String) :=
  schema.refs.map fun target => (name, target)

/-- The search for the closure of `root`: takes up the citations of `work` in turn, those of a
schema that is met for the first time before all others. Only the registered names of `unvisited`
can still be met for the first time. -/
def search (registry : Registry) (root : String) :
    (unvisited : List String) → (found : NameSet) → (work : List (String × String)) →
      Except ResolutionError NameSet
  | _, found, [] => .ok found
  | unvisited, found, (citing, target) :: work =>
    if target = root then search registry root unvisited (found.insert root) work
    else if found.contains target then search registry root unvisited found work
    else
      match registry.get? target with
      | none => .error ⟨citing, target⟩
      | some schema =>
        if _h : target ∈ unvisited then
          search registry root (unvisited.erase target) (found.insert target)
            (citations target schema ++ work)
        else search registry root unvisited found work
termination_by unvisited _ work => (unvisited.length, work.length)
decreasing_by
  · exact Prod.Lex.right _ (by simp)
  · exact Prod.Lex.right _ (by simp)
  · apply Prod.Lex.left
    have := List.length_erase_of_mem _h
    have := List.length_pos_of_mem _h
    omega
  · exact Prod.Lex.right _ (by simp)

/-- The names that references of a schema lead to. -/
def closure (registry : Registry) (name : String) : Except ResolutionError NameSet :=
  match registry.get? name with
  | none => .error ⟨name, name⟩
  | some schema => registry.search name registry.names.toList ∅ (citations name schema)

/-- Whether a schema reaches itself. -/
def isRecursive (registry : Registry) (name : String) : Except ResolutionError Bool :=
  (registry.closure name).map fun reached => reached.contains name

end Registry

/-- The closures of the schemas of a registry, each or the error that its search ended with. -/
structure ClosureIndex where
  closures : NameMap (Except ResolutionError NameSet)

namespace ClosureIndex

instance : EmptyCollection ClosureIndex := ⟨⟨∅⟩⟩

/-- The closures of all registered schemas. -/
def ofRegistry (registry : Registry) : ClosureIndex :=
  ⟨registry.schemas.mapEntries fun name _ => registry.closure name⟩

/-- The closure of a schema, if it resolves. -/
def closure? (index : ClosureIndex) (name : String) : Option NameSet :=
  match index.closures.get? name with
  | some (.ok reached) => some reached
  | _ => none

/-- Whether `target` belongs to the closure of `source`. -/
def reaches (index : ClosureIndex) (source target : String) : Bool :=
  (index.closure? source).any (·.contains target)

/-- Whether a schema reaches itself. -/
def isRecursive (index : ClosureIndex) (name : String) : Bool := index.reaches name name

/-- The errors of all searches, in order and without repetition. -/
def errors (index : ClosureIndex) : List ResolutionError :=
  let all := index.closures.values.filterMap fun
    | .ok _ => none
    | .error e => some e
  (all.mergeSort ResolutionError.le).eraseDups

end ClosureIndex

end ZodModules
