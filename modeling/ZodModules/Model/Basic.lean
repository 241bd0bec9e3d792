import ZodModules.Json.Basic

/-!
# Models

A model is what is declared for one schema: a validator, a type, the enums that both use and, for an
object, its properties. Expressions of the target language are held as their text.
-/

namespace ZodModules

/-- The kinds of scalar values. -/
inductive ScalarKind where
  | string
  | number
  | boolean
deriving DecidableEq

/-- The name of the constructor of a kind's values. -/
def ScalarKind.constructorName : ScalarKind → String
  | string => "String"
  | number => "Number"
  | boolean => "Boolean"

/-- A coarse classification of values. -/
inductive Shape where
  | scalar (kind : ScalarKind)
  /-- One of the literals listed by a constant. -/
  | enum (constant : String)
  | literal (value : String)
  /-- A value of another schema; `object` if that is an object schema. -/
  | reference (schema : String) (object : Bool)
  | array (item : Shape)
  | map
  | union
  | null
  | unknown
deriving DecidableEq

namespace Model

/-- How the type of a model is declared. -/
inductive Typing where
  /-- By inference from the validator. -/
  | inferred
  | explicit (type : String)
deriving DecidableEq

/-- A constant that lists literals, with the type of its elements if that has a name of its own. -/
structure EnumDeclaration where
  constant : String
  type : Option String
  values : List String
deriving DecidableEq

/-- The name with the number that makes it distinct; the first bearer shows none. -/
def numbered (name : String) (number : Nat) : String :=
  if number = 1 then name else name ++ toString number

/-- An enum under the names with a number. -/
def EnumDeclaration.numbered (declaration : EnumDeclaration) (number : Nat) : EnumDeclaration :=
  { declaration with
    constant := Model.numbered declaration.constant number
    type := declaration.type.map fun type => Model.numbered type number }

/-- What was decided about one property of an object. -/
structure Property where
  name : String
  /-- The validator with all that is chained to it. -/
  validator : String
  /-- The type, which does not show whether `null` is accepted. -/
  type : String
  required : Bool
  nullable : Bool
  shape : Shape
  description : Option String
  example? : Option Json

end Model

/-- The declarations for one schema. -/
structure Model where
  name : String
  typeName : String
  validatorName : String
  validator : String
  typing : Model.Typing
  enums : List Model.EnumDeclaration
  /-- The schemas that are referred to directly, in order of appearance. -/
  references : List String
  /-- Whether the schema reaches itself. -/
  isRecursive : Bool
  properties : List Model.Property
  isObject : Bool
  description : Option String
  example? : Option Json

namespace Model

/-- Whether the type is spelled out. -/
def isExplicit (model : Model) : Bool :=
  match model.typing with
  | .explicit _ => true
  | .inferred => false

/-- Whether a schema is referred to directly. -/
def refersTo (model : Model) (schema : String) : Bool := model.references.contains schema

/-- The type of the values of a type and, if `nullable`, of `null`. -/
def nullableType (type : String) (nullable : Bool) : String :=
  if nullable then type ++ " | null" else type

end Model

end ZodModules
