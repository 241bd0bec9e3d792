import ZodModules.Registry

/-!
# Usage of schemas

Which tags use which schemas. A use of a schema is a use of everything in its closure.
-/

namespace ZodModules

/-- The tags that use each schema. -/
structure Usage where
  tags : NameMap NameSet
deriving DecidableEq

namespace Usage

instance : EmptyCollection Usage := ⟨⟨∅⟩⟩

/-- The tags that use a schema. -/
def tags? (usage : Usage) (schema : String) : Option NameSet := usage.tags.get? schema

/-- The number of tags that use a schema. -/
def tagCount (usage : Usage) (schema : String) : Nat := ((usage.tags? schema).map (·.size)).getD 0

/-- Records that a tag uses a schema. -/
def record (usage : Usage) (schema tag : String) : Usage :=
  ⟨usage.tags.alter schema fun tags => (tags.getD ∅).insert tag⟩

/-- Records that a tag uses a schema and its closure; one that does not resolve adds nothing. -/
def recordClosure (usage : Usage) (index : ClosureIndex) (schema tag : String) : Usage :=
  let reached := ((index.closure? schema).map NameSet.toList).getD []
  reached.foldl (fun usage name => usage.record name tag) (usage.record schema tag)

/-- The usage given by pairs of schema and tag. -/
def ofList (pairs : List (String × String)) : Usage :=
  pairs.foldl (fun usage pair => usage.record pair.1 pair.2) ∅

end Usage

end ZodModules
