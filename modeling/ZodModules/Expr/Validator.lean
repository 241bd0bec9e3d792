import ZodModules.Json.Printer
import ZodModules.Naming
import ZodModules.Text.Regex

/-!
# Validator expressions

The expressions of the validator library that schemas are generated as, and their text.
-/

namespace ZodModules

/-- The formats of strings for which there is a check. -/
inductive StringFormat where
  | email
  | uuid
  | url
  | dateTime
  | date
deriving DecidableEq

namespace StringFormat

/-- The format that a schema names. -/
def ofName? (name : String) : Option StringFormat :=
  if name = "email" then some email
  else if name = "uuid" then some uuid
  else if name = "uri" ∨ name = "url" then some url
  else if name = "date-time" then some dateTime
  else if name = "date" then some date
  else none

/-- The method that adds the check. -/
def method : StringFormat → String
  | email => ".email()"
  | uuid => ".uuid()"
  | url => ".url()"
  | dateTime => ".datetime()"
  | date => ".date()"

end StringFormat

/-- A check on strings. -/
inductive StringCheck where
  | format (format : StringFormat)
  | min (length : Nat)
  | max (length : Nat)
  | regex (pattern : String)
deriving DecidableEq

/-- The call that adds a check on strings. -/
def StringCheck.text : StringCheck → String
  | format f => f.method
  | min n => ".min(" ++ toString n ++ ")"
  | max n => ".max(" ++ toString n ++ ")"
  | regex pattern => ".regex(/" ++ String.ofList (Regex.escape pattern.toList) ++ "/)"

/-- A check on numbers. -/
inductive NumberCheck where
  | int
  | min (bound : Binary64)
  | max (bound : Binary64)
deriving DecidableEq

namespace NumberCheck

/-- Bounds are written without exponent, fraction of integral numbers or sign of zero. Of two equally
near decimals the one further from zero is taken. -/
def layout : DecimalLayout where
  tie := .up
  positional _ := true
  integralEnd := ""
  signedZero := false

/-- The call that adds a check on numbers. -/
def text : NumberCheck → String
  | int => ".int()"
  | min x => ".min(" ++ layout.print x ++ ")"
  | max x => ".max(" ++ layout.print x ++ ")"

end NumberCheck

/-- A validator expression. -/
inductive Validator where
  /-- Accepts every value. -/
  | any
  | string (checks : List StringCheck)
  | literal (value : String)
  /-- One of the literals that a constant lists. -/
  | enum (constant : String)
  | number (checks : List NumberCheck)
  | boolean
  | null
  | record (value : Validator)
  | array (item : Validator)
  | union (members : List Validator)
  /-- A union of objects that the value of one property tells apart. -/
  | discriminatedUnion (property : String) (members : List Validator)
  | object (fields : List (String × Validator))
  /-- A validator that is declared under a name. -/
  | symbol (name : String)
  | nullable (inner : Validator)
  | optional (inner : Validator)
  | described (inner : Validator) (description : String)
  | defaulted (inner : Validator) (value : Json)

namespace Validator

instance : Inhabited Validator := ⟨any⟩

/-- Whether this is the expression that accepts every value. -/
def isAny : Validator → Bool
  | any => true
  | _ => false

/-- The text of an object validator with the given keys and texts of fields, a line for each. In a
literal that has other escapes, a brace that is closed in another literal is an escape too, here and
elsewhere. -/
def objectText (indent : String) (fields : List (String × String)) : String :=
  if fields.isEmpty then "z.object({})"
  else
    "z.object(\x7b\n" ++
      ",\n".intercalate (fields.map fun field =>
        indent ++ Naming.propertyKey field.1 ++ ": " ++ field.2) ++
      "\n\x7d)"

mutual

/-- The text of an expression. -/
def text (indent : String) : Validator → String
  | any => "z.any()"
  | string checks => "z.string()" ++ String.join (checks.map StringCheck.text)
  | literal value => "z.literal(" ++ quote value ++ ")"
  | enum constant => "z.enum(" ++ constant ++ ")"
  | number checks => "z.number()" ++ String.join (checks.map NumberCheck.text)
  | boolean => "z.boolean()"
  | null => "z.null()"
  | record value => "z.record(z.string(), " ++ value.text indent ++ ")"
  | array item => "z.array(" ++ item.text indent ++ ")"
  | union members => "z.union([" ++ ", ".intercalate (textAll indent members) ++ "])"
  | discriminatedUnion property members =>
    "z.discriminatedUnion(" ++ quote property ++ ", [" ++
      ", ".intercalate (textAll indent members) ++ "])"
  | object fields => objectText indent (textFields indent fields)
  | symbol name => name
  | nullable inner => inner.text indent ++ ".nullable()"
  | optional inner => inner.text indent ++ ".optional()"
  | described inner description =>
    inner.text indent ++ ".describe(" ++ quote description ++ ")"
  | defaulted inner value => inner.text indent ++ ".default(" ++ value.text ++ ")"

/-- The texts of some expressions. -/
def textAll (indent : String) : List Validator → List String
  | [] => []
  | member :: members => member.text indent :: textAll indent members

/-- The names of some fields with the texts of their expressions. -/
def textFields (indent : String) : List (String × Validator) → List (String × String)
  | [] => []
  | (name, value) :: fields => (name, value.text indent) :: textFields indent fields

end

/-- The expression that accepts `null` as well, if asked for. -/
def orNull (nullable : Bool) (validator : Validator) : Validator :=
  if nullable then .nullable validator else validator

/-- The expression with a description, if there is one. -/
def describe? (description : Option String) (validator : Validator) : Validator :=
  match description with
  | none => validator
  | some text => .described validator text

end Validator

end ZodModules
