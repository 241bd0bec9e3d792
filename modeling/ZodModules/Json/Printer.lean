import ZodModules.Json.Token

/-!
# Writing JSON

The compact text of a value: its tokens without blanks between them.
-/

namespace ZodModules.Json

mutual

/-- The tokens of a value. -/
def tokens : Json → List Token
  | .null => [.null]
  | .bool b => [.bool b]
  | .number n => [.number n]
  | .string s => [.string s]
  | .array [] => [.openArray, .closeArray]
  | .array (item :: items) => .openArray :: item.tokens ++ itemTokens items
  | .object [] => [.openObject, .closeObject]
  | .object ((key, value) :: members) =>
    .openObject :: .string key :: .colon :: value.tokens ++ memberTokens members

/-- The tokens of the further items of an array and of its end. -/
def itemTokens : List Json → List Token
  | [] => [.closeArray]
  | item :: items => .comma :: item.tokens ++ itemTokens items

/-- The tokens of the further members of an object and of its end. -/
def memberTokens : List (String × Json) → List Token
  | [] => [.closeObject]
  | (key, value) :: members =>
    .comma :: .string key :: .colon :: value.tokens ++ memberTokens members

end

/-- The compact text of a value. -/
def text (value : Json) : String := String.join (value.tokens.map Token.text)

end ZodModules.Json
