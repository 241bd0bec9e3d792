import ZodModules.Json.Parser
import ZodModules.OpenApi.Document
import ZodModules.Path
import ZodModules.Yaml.Value

/-!
# Texts of documents

A document is written as JSON or as YAML.
-/

namespace ZodModules.OpenApi

/-- The notation that a document is written in. -/
inductive Format where
  | json
  | yaml
deriving DecidableEq

namespace Format

/-- The name of the notation. -/
def name : Format → String
  | json => "JSON"
  | yaml => "YAML"

/-- The notation of a file: YAML if its extension says so, in any case, else JSON. -/
def ofPath (path : String) : Format :=
  let extension := (Path.extension? path).map fun e => e.toList.map Char.toLower
  if extension = some ['y', 'a', 'm', 'l'] ∨ extension = some ['y', 'm', 'l'] then yaml else json

/-- The value of a text in the notation. -/
def parse? : Format → String → Option Json
  | json => Json.parse?
  | yaml => Yaml.parse?

end Format

end ZodModules.OpenApi
