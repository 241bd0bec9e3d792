import ZodModules.Json.Basic
import ZodModules.Text.Digits
import ZodModules.Text.Segments

/-!
# References

A `$ref` names a schema of the document by the prefix of the schemas and the name, or any other part
of the document by a JSON pointer after a number sign. In both a tilde is written `~0` and a slash
`~1`.
-/

namespace ZodModules.OpenApi

/-- What a reference to a schema of the document begins with. -/
def schemaPrefix : String := "#/components/schemas/"

/-- The rest of a text after a beginning, if it has that beginning. -/
def after? (beginning text : String) : Option String :=
  if beginning.toList.isPrefixOf text.toList then
    some (String.ofList (text.toList.drop beginning.length))
  else none

/-- The text with each occurrence of two characters in a row replaced by one. -/
def replacePair (first second new : Char) : List Char → List Char
  | c :: d :: rest =>
    if c = first ∧ d = second then new :: replacePair first second new rest
    else c :: replacePair first second new (d :: rest)
  | text => text

/-- The name that a pointer segment stands for. -/
def unescape (segment : List Char) : List Char :=
  replacePair '~' '0' '~' (replacePair '~' '1' '/' segment)

/-- The text after the last slash. -/
def lastSegment (text : List Char) : List Char :=
  (text.reverse.takeWhile (· != '/')).reverse

/-- The schema that a reference names: what follows the prefix of the schemas, else what follows the
last slash. -/
def refName (reference : String) : String :=
  String.ofList (unescape
    (match after? schemaPrefix reference with
    | some name => name.toList
    | none => lastSegment reference.toList))

/-- The index that a segment stands for: decimal digits without a leading zero. -/
def index? (segment : List Char) : Option Nat :=
  if segment.isEmpty ∨ !segment.all Char.isDigit ∨ (segment.length ≠ 1 ∧ segment.head? = some '0')
  then none
  else some (Text.decimalValue segment)

/-- The part of a value under a segment. -/
def child? (value : Json) (segment : List Char) : Option Json :=
  let name := unescape segment
  match value with
  | .object members => members.lookup (String.ofList name)
  | .array items => (index? name).bind (items[·]?)
  | _ => none

/-- The part of a document that a JSON pointer leads to. -/
def resolve? (document : Json) (pointer : String) : Option Json :=
  match pointer.toList with
  | [] => some document
  | '/' :: rest => (Text.segments rest).foldlM child? document
  | _ => none

end ZodModules.OpenApi
