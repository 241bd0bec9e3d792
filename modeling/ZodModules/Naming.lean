import ZodModules.Text.Words
import ZodModules.Text.Quoted

/-!
# Names of generated symbols

Schemas, tags and properties may have any names; what is declared for them in TypeScript needs
identifiers. Every character other than an ASCII letter or digit separates words.
-/

namespace ZodModules.Naming

/-- The words of a name apart: each character that no identifier has becomes a space, and the outer
spaces fall away. -/
def spaced (name : List Char) : List Char :=
  let spaces := name.map fun c => if c.isAlphanum then c else ' '
  ((spaces.dropWhile (· == ' ')).reverse.dropWhile (· == ' ')).reverse

/-- Makes the result of a conversion an identifier: one that is empty or begins with a digit is
preceded by an underscore. -/
def guardStart : List Char → List Char
  | [] => ['_']
  | c :: rest => if c.isDigit then '_' :: c :: rest else c :: rest

/-- Whether a name is a capital letter followed by letters and digits. -/
def isPascal : List Char → Bool
  | [] => false
  | c :: rest => c.isUpper && rest.all Char.isAlphanum

/-- The PascalCase identifier of a name; one that has that form already is kept, acronyms too. -/
def pascalIdentifier (name : String) : String :=
  if isPascal name.toList then name
  else String.ofList (guardStart (Words.pascal (spaced name.toList)))

/-- The camelCase identifier of a name. -/
def camelIdentifier (name : String) : String :=
  String.ofList (guardStart (Words.camel (spaced name.toList)))

/-- The type declared for a schema. -/
def typeName (schema : String) : String := pascalIdentifier schema

/-- The validator declared for a schema. -/
def validatorName (schema suffix : String) : String := typeName schema ++ suffix

/-- The data transfer class declared for a schema. -/
def dtoName (schema : String) : String := typeName schema ++ "Dto"

/-- The entity of the schemas that only one tag uses. -/
def entityName (tag : String) : String := pascalIdentifier tag

/-- A schema and one of its properties as one name. -/
def joined (schema property : String) : String :=
  if property.isEmpty then schema else schema ++ " " ++ property

/-- The constant that lists the values of an enum. -/
def enumConstantName (schema property : String) : String :=
  camelIdentifier (joined schema property) ++ "Options"

/-- The type of the values of an enum. -/
def enumTypeName (schema property : String) : String :=
  String.ofList (Words.pascal (spaced (joined schema property).toList))

/-- Whether a text ends with one of the given endings, whatever the case of its ASCII letters. -/
def endsLike (text : String) (endings : List String) : Bool :=
  let lower := text.toList.map Char.toLower
  endings.any fun ending => ending.toList.isSuffixOf lower

/-- The text without its last characters. -/
def dropLast (text : String) (count : Nat) : String :=
  String.ofList (text.toList.take (text.length - count))

/-- The singular of an English plural by its ending; names an enum that is an array's item. -/
def singularize (word : String) : String :=
  if endsLike word ["ies"] && 3 < word.utf8ByteSize then dropLast word 3 ++ "y"
  else if endsLike word ["sses", "shes", "ches", "xes", "zes", "uses"] then dropLast word 2
  else if endsLike word ["ss", "us", "is"] then word
  else if endsLike word ["s"] && 1 < word.utf8ByteSize then dropLast word 1
  else word

/-- The characters that an identifier may begin with. -/
def isIdentifierStart (c : Char) : Bool := c.isAlpha || c == '_' || c == '$'

/-- The characters of identifiers. -/
def isIdentifierChar (c : Char) : Bool := c.isAlphanum || c == '_' || c == '$'

/-- Whether a property of this name needs no quotes in JavaScript. -/
def isIdentifier (name : String) : Bool :=
  match name.toList with
  | [] => false
  | c :: rest => isIdentifierStart c && rest.all isIdentifierChar

/-- A property's name as a key of an object literal. -/
def propertyKey (name : String) : String := if isIdentifier name then name else quote name

end ZodModules.Naming
