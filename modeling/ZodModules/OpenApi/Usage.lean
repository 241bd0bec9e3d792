import ZodModules.OpenApi.Reference
import ZodModules.Entity.Usage
import ZodModules.Order.Explore

/-!
# Usage in operations

Which schemas the tagged operations of a document use: those that a reference in the request body,
the responses or the parameters names, in the operation itself or in a part of the document that
other references lead to.
-/

namespace ZodModules.OpenApi

/-- The methods that a path item may have operations for. -/
def methods : List String := ["get", "put", "post", "delete", "options", "head", "patch", "trace"]

mutual

/-- The references in a value. Below a `$ref` there are none but its own text. -/
def references : Json → List String
  | .object members => memberReferences members
  | .array items => itemReferences items
  | _ => []

/-- The references in the members of an object. -/
def memberReferences : List (String × Json) → List String
  | [] => []
  | (key, value) :: rest =>
    (if key = "$ref" then value.string?.toList else references value) ++ memberReferences rest

/-- The references in the items of an array. -/
def itemReferences : List Json → List String
  | [] => []
  | value :: rest => references value ++ itemReferences rest

end

mutual

/-- The strings in a value. -/
def strings : Json → List String
  | .string text => [text]
  | .object members => memberStrings members
  | .array items => itemStrings items
  | _ => []

/-- The strings in the members of an object. -/
def memberStrings : List (String × Json) → List String
  | [] => []
  | (_, value) :: rest => strings value ++ memberStrings rest

/-- The strings in the items of an array. -/
def itemStrings : List Json → List String
  | [] => []
  | value :: rest => strings value ++ itemStrings rest

end

/-- The schema of the document that a reference names. -/
def schemaName? (reference : String) : Option String :=
  if (after? schemaPrefix reference).isSome then some (refName reference) else none

/-- The references in the part of the document that a reference leads to. One that names a schema is
not followed, nor is one to another document. -/
def nextReferences (document : Json) (reference : String) : List String :=
  match schemaName? reference, (after? "#" reference).bind (resolve? document) with
  | none, some target => references target
  | _, _ => []

/-- The schemas that references lead to from some of them on. -/
def reachedSchemas (document : Json) (start : List String) : NameSet :=
  let met := Graph.explore (nextReferences document) (strings document).eraseDups start
  NameSet.ofList (met.filterMap schemaName?)

/-- The references from which an operation of a path item uses schemas. -/
def operationReferences (item operation : Json) : List String :=
  let parts := ["requestBody", "responses", "parameters"].filterMap operation.get? ++
    (item.get? "parameters").toList
  parts.flatMap references

/-- The tags of an operation. -/
def tagsOf (operation : Json) : List String :=
  (((operation.get? "tags").bind Json.items?).getD []).filterMap Json.string?

/-- The path items of a document. -/
def pathItems (document : Json) : List Json :=
  (((document.get? "paths").bind Json.members?).getD []).map Prod.snd

/-- The pairs of a registered schema and a tag under which an operation uses it. -/
def operationUses (document : Json) (registry : Registry) (item operation : Json) :
    List (String × String) :=
  let tags := tagsOf operation
  if tags.isEmpty then []
  else
    let used := (reachedSchemas document (operationReferences item operation)).filter registry.contains
    used.toList.flatMap fun schema => tags.map fun tag => (schema, tag)

/-- The pairs of a registered schema and a tag under which the document uses it. -/
def documentUses (document : Json) (registry : Registry) : List (String × String) :=
  (pathItems document).flatMap fun item =>
    (methods.filterMap item.get?).flatMap (operationUses document registry item)

/-- The usage of the schemas of a document. Untagged operations add nothing to it. -/
def usageOf (document : Json) (registry : Registry) : Usage :=
  let closures := ClosureIndex.ofRegistry registry
  (documentUses document registry).foldl
    (fun usage use => usage.recordClosure closures use.1 use.2) ∅

end ZodModules.OpenApi
