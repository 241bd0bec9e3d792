import ZodModules.Entity.Usage
import ZodModules.Naming

/-!
# Assignment of schemas to entities

Every entity is a module of its own. A schema that one tag uses belongs to the entity of that tag;
one that several tags use, or none, belongs to the shared entity.
-/

namespace ZodModules

/-- The schemas of each entity and the entity of each schema. -/
structure EntityAssignment where
  entities : NameMap (List String)
  owners : NameMap String
  shared : String

namespace EntityAssignment

/-- The entity of a schema that is used as recorded. -/
def ownerOf (usage : Usage) (shared schema : String) : String :=
  match (usage.tags? schema).map NameSet.toList with
  | some [tag] => Naming.entityName tag
  | _ => shared

/-- Puts a schema last among those of an entity. -/
def place (assignment : EntityAssignment) (schema entity : String) : EntityAssignment :=
  { assignment with
    entities := assignment.entities.alter entity fun schemas => schemas.getD [] ++ [schema]
    owners := assignment.owners.insert schema entity }

/-- Assigns each registered schema to an entity; the shared one is there even if it is empty. -/
def ofUsage (registry : Registry) (usage : Usage) (shared : String) : EntityAssignment :=
  registry.names.toList.foldl
    (fun assignment schema => assignment.place schema (ownerOf usage shared schema))
    ⟨(∅ : NameMap _).insert shared [], ∅, shared⟩

/-- The schemas of an entity, by name. -/
def members (assignment : EntityAssignment) (entity : String) : List String :=
  (assignment.entities.get? entity).getD []

/-- The entity of a schema. -/
def entityOf? (assignment : EntityAssignment) (schema : String) : Option String :=
  assignment.owners.get? schema

end EntityAssignment

end ZodModules
