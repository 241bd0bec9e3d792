import ZodModules.Naming

/-!
# Type expressions

The static types that stand beside validators, and their text.
-/

namespace ZodModules

/-- A type expression. -/
inductive TypeExpr where
  | any
  | string
  | number
  | boolean
  | null
  /-- The type of one string. -/
  | literal (value : String)
  /-- A type that is declared under a name. -/
  | named (name : String)
  /-- The type of the elements of a constant. -/
  | elementOf (constant : String)
  | record (value : TypeExpr)
  | array (item : TypeExpr)
  | union (members : List TypeExpr)
  | orNull (inner : TypeExpr)

namespace TypeExpr

instance : Inhabited TypeExpr := ⟨any⟩

mutual

/-- The text of a type expression. -/
def text : TypeExpr → String
  | any => "any"
  | string => "string"
  | number => "number"
  | boolean => "boolean"
  | null => "null"
  | literal value => quote value
  | named name => name
  | elementOf constant => "(typeof " ++ constant ++ ")[number]"
  | record value => "Record<string, " ++ value.text ++ ">"
  | array item => "Array<" ++ item.text ++ ">"
  | union members => " | ".intercalate (textAll members)
  | orNull inner => inner.text ++ " | null"

/-- The texts of some type expressions. -/
def textAll : List TypeExpr → List String
  | [] => []
  | member :: members => member.text :: textAll members

end

/-- The type of the values of a type and of `null`, if asked for. -/
def nullable (nullable : Bool) (type : TypeExpr) : TypeExpr := if nullable then .orNull type else type

end TypeExpr

end ZodModules
