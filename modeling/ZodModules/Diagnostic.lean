import ZodModules.Registry

/-!
# Diagnostics

What can happen to a schema while it is generated, and why a whole run fails.
-/

namespace ZodModules

/-- A shape inside a schema that no validator expresses. -/
structure UnsupportedShape where
  schema : String
  /-- The properties and positions that lead to the shape, joined by points. -/
  path : String
  shape : String
deriving DecidableEq

/-- The wording of the warning. -/
def UnsupportedShape.message (e : UnsupportedShape) : String :=
  "Unsupported shape in '" ++ e.schema ++ "' at '" ++ e.path ++ "': " ++ e.shape

/-- Two schemas that would export one symbol. -/
structure SymbolCollision where
  schema : String
  /-- The schema that claimed the symbol before. -/
  first : String
  symbol : String
deriving DecidableEq

/-- The wording of the error. -/
def SymbolCollision.message (e : SymbolCollision) : String :=
  "Schemas '" ++ e.first ++ "' and '" ++ e.schema ++ "' both export '" ++ e.symbol ++ "'"

/-- An event in the generation of a schema. -/
inductive Diagnostic where
  /-- A reference leads nowhere, so the schema has no model. -/
  | resolution (error : ResolutionError)
  /-- A shape was generated as `z.any()`. -/
  | shape (warning : UnsupportedShape)
  /-- A symbol of the schema is exported by another one. -/
  | collision (error : SymbolCollision)
  /-- A reference that closes a cycle was generated as `z.any()`. -/
  | recursion (schema target : String)
deriving DecidableEq

namespace Diagnostic

/-- Whether the event fails every run. -/
def isError : Diagnostic → Bool
  | resolution _ | collision _ => true
  | _ => false

/-- Whether the event fails a strict run only. -/
def isWarning : Diagnostic → Bool
  | shape _ => true
  | _ => false

end Diagnostic

/-- Why a run fails. -/
inductive RunError where
  | resolution (errors : List ResolutionError)
  | symbolCollision (errors : List SymbolCollision)
  | strict (warnings : List UnsupportedShape)
deriving DecidableEq

namespace RunError

/-- A numbered list, one message a line. -/
def numbered (messages : List String) : String :=
  "\n".intercalate (messages.mapIdx fun i message =>
    "  " ++ toString (i + 1) ++ ". " ++ message)

/-- The wording of the failure. -/
def message : RunError → String
  | resolution errors =>
    "Unresolved schema references:\n" ++ numbered (errors.map (·.message))
  | symbolCollision errors =>
    "Conflicting exported names:\n" ++ numbered (errors.map (·.message))
  | strict warnings =>
    "Unsupported schema shapes (strict mode):\n" ++ numbered (warnings.map (·.message))

end RunError

end ZodModules
