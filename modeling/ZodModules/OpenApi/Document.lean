import ZodModules.OpenApi.Convert
import ZodModules.OpenApi.Usage

/-!
# Documents

An OpenAPI document as far as it matters here: its title, its schemas and how its operations use
them.
-/

namespace ZodModules.OpenApi

/-- What is read from a document. -/
structure Document where
  title : Option String
  registry : Registry
  usage : Usage

/-- Why a value is no OpenAPI document. -/
inductive InvalidDocument where
  | rootNotObject
  | schemasNotObject
deriving DecidableEq

/-- The wording of the reason. -/
def InvalidDocument.message : InvalidDocument → String
  | rootNotObject => "document root is not an object"
  | schemasNotObject => "components.schemas is not an object"

/-- The components of a document that are schemas, none if nothing is said. -/
def components (document : Json) : Except InvalidDocument Components :=
  match document.members? with
  | none => .error .rootNotObject
  | some _ =>
    match (document.get? "components").bind (·.get? "schemas") with
    | none => .ok []
    | some (.object schemas) => .ok schemas
    | some _ => .error .schemasNotObject

/-- The registry of some components. -/
def registryOf (components : Components) : Registry :=
  Registry.ofList (components.map fun entry => (entry.1, convert components entry.2))

/-- Reads a document. -/
def Document.ofJson (document : Json) : Except InvalidDocument Document := do
  let components ← components document
  let registry := registryOf components
  return {
    title := ((document.get? "info").bind (·.get? "title")).bind Json.string?
    registry := registry
    usage := usageOf document registry }

end ZodModules.OpenApi
