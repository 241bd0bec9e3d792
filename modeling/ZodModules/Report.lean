import ZodModules.Diagnostic

/-!
# Reports

The diagnostics of a run by schema, and the outcome that they decide.
-/

namespace ZodModules

/-- The diagnostics of each schema, in the order in which they occurred. -/
structure Report where
  entries : NameMap (List Diagnostic)
deriving DecidableEq

namespace Report

instance : EmptyCollection Report := ⟨⟨∅⟩⟩

/-- Adds a diagnostic of a schema, unless that schema has the very same one. -/
def record (report : Report) (schema : String) (diagnostic : Diagnostic) : Report :=
  ⟨report.entries.alter schema fun entry =>
    let entry := entry.getD []
    if entry.contains diagnostic then entry else entry ++ [diagnostic]⟩

/-- Adds several diagnostics of a schema. -/
def recordAll (report : Report) (schema : String) (diagnostics : List Diagnostic) : Report :=
  diagnostics.foldl (·.record schema ·) report

/-- The diagnostics of a schema. -/
def diagnostics (report : Report) (schema : String) : List Diagnostic :=
  (report.entries.get? schema).getD []

/-- All diagnostics, by schema. -/
def all (report : Report) : List Diagnostic := report.entries.values.flatten

/-- The references that lead nowhere, by schema. -/
def resolutionErrors (report : Report) : List ResolutionError :=
  report.all.filterMap fun
    | .resolution e => some e
    | _ => none

/-- The shapes that could not be expressed, by schema. -/
def unsupportedShapes (report : Report) : List UnsupportedShape :=
  report.all.filterMap fun
    | .shape e => some e
    | _ => none

/-- The symbols that two schemas export, by schema. -/
def symbolCollisions (report : Report) : List SymbolCollision :=
  report.all.filterMap fun
    | .collision e => some e
    | _ => none

/-- The schemas and targets of the references that close cycles, by schema. -/
def recursionEvents (report : Report) : List (String × String) :=
  report.all.filterMap fun
    | .recursion schema target => some (schema, target)
    | _ => none

/-- The number of warnings. -/
def warningCount (report : Report) : Nat := report.all.countP Diagnostic.isWarning

/-- The number of errors. -/
def errorCount (report : Report) : Nat := report.all.countP Diagnostic.isError

/-- Whether the run succeeded. References that lead nowhere come before collisions, these before
unsupported shapes, which count in a strict run only; cycles never fail a run. -/
def outcome (report : Report) (strict : Bool) : Except RunError Unit :=
  let resolution := (report.resolutionErrors.mergeSort ResolutionError.le).eraseDups
  if !resolution.isEmpty then .error (.resolution resolution)
  else if !report.symbolCollisions.isEmpty then .error (.symbolCollision report.symbolCollisions)
  else if strict && !report.unsupportedShapes.isEmpty then .error (.strict report.unsupportedShapes)
  else .ok ()

end Report

end ZodModules
