import ZodModules.Naming
import ZodModules.Text.Blank

/-!
# Configuration of a generation

How the generated modules are typed, named and formatted.
-/

namespace ZodModules

/-- One step of indentation. -/
inductive Indent where
  | spaces2
  | spaces4
  | tab
deriving DecidableEq

namespace Indent

/-- The characters of one step. -/
def text : Indent → String
  | spaces2 => "  "
  | spaces4 => "    "
  | tab => "\t"

/-- Reads the name of an indentation, whatever its case and the white space around it. -/
def ofText? (name : String) : Option Indent :=
  let name := String.ofList ((Text.trim name.toList).map Char.toLower)
  if name = "2" ∨ name = "spaces2" then some spaces2
  else if name = "4" ∨ name = "spaces4" then some spaces4
  else if name = "tab" ∨ name = "tabs" then some tab
  else none

end Indent

/-- The choices that a generation depends on. -/
structure Config where
  /-- Whether types are spelled out instead of inferred from the validators. -/
  preferExplicitTyping : Bool := false
  /-- Whether object schemas also get a class with decorated properties. -/
  annotations : Bool := false
  /-- Whether a shape that cannot be expressed fails the run. -/
  strict : Bool := false
  /-- The entity of the schemas that belong to no single tag. -/
  sharedEntity : String := "Utils"
  /-- What follows a type's name in the name of its validator. -/
  validatorSuffix : String := "ValidationSchema"
  /-- What precedes an entity's name in an import path. -/
  importPrefix : String := "./"
  /-- Whether descriptions and examples become doc comments. -/
  docs : Bool := true
  indent : Indent := .spaces2
  /-- The first lines of every module; empty for none. -/
  header : String := "// This file is generated by zodgen. Do not edit it by hand."
deriving DecidableEq

namespace Config

/-- Whether types are spelled out; decorated classes need that. -/
def explicitTyping (config : Config) : Bool := config.preferExplicitTyping || config.annotations

/-- The path under which an entity's module is imported. -/
def modulePath (config : Config) (entity : String) : String := config.importPrefix ++ entity

/-- The validator declared for a schema. -/
def validatorName (config : Config) (schema : String) : String :=
  Naming.validatorName schema config.validatorSuffix

end Config

end ZodModules
