import ZodModules.Data.Entries
import ZodModules.Json.Token

/-!
# Reading JSON

A text is read token by token. The state between two tokens is the list of the open containers and
what may come next, so the depth of nesting is the length of that list.
-/

namespace ZodModules.Json

/-- An open container: the items of an array so far, last first, or the members of an object so
far with the key whose value is being read. -/
inductive Frame where
  | array (items : List Json)
  | member (members : List (String × Json)) (key : String)

/-- What the next token may be. -/
inductive Awaited where
  /-- A value. -/
  | value
  /-- The first item of an array, or its end. -/
  | firstItem
  /-- The first key of an object, or its end. -/
  | firstKey
  /-- A further key of an object. -/
  | key (members : List (String × Json))
  /-- The colon after a key. -/
  | colon (members : List (String × Json)) (key : String)
  /-- What follows a whole value. -/
  | after (value : Json)

/-- The open containers, innermost first, and what is awaited inside them. -/
structure Reading where
  frames : List Frame
  awaited : Awaited

namespace Reading

/-- The value that a single token denotes. -/
def scalar? : Token → Option Json
  | .null => some .null
  | .bool b => some (.bool b)
  | .number n => some (.number n)
  | .string s => some (.string s)
  | _ => none

/-- Begins a value, inside at most `limit` containers counting its own. -/
def begin? (limit : Nat) (frames : List Frame) (token : Token) : Option Reading :=
  match token with
  | .openArray => if frames.length < limit then some ⟨.array [] :: frames, .firstItem⟩ else none
  | .openObject => if frames.length < limit then some ⟨frames, .firstKey⟩ else none
  | token => (scalar? token).map fun value => ⟨frames, .after value⟩

/-- Takes one token. -/
def step? (limit : Nat) : Reading → Token → Option Reading
  | ⟨frames, .value⟩, token => begin? limit frames token
  | ⟨.array items :: frames, .firstItem⟩, .closeArray => some ⟨frames, .after (.array items)⟩
  | ⟨frames, .firstItem⟩, token => begin? limit frames token
  | ⟨frames, .firstKey⟩, .closeObject => some ⟨frames, .after (.object [])⟩
  | ⟨frames, .firstKey⟩, .string key => some ⟨frames, .colon [] key⟩
  | ⟨frames, .key members⟩, .string key => some ⟨frames, .colon members key⟩
  | ⟨frames, .colon members key⟩, .colon => some ⟨.member members key :: frames, .value⟩
  | ⟨.array items :: frames, .after value⟩, .comma =>
    some ⟨.array (value :: items) :: frames, .value⟩
  | ⟨.array items :: frames, .after value⟩, .closeArray =>
    some ⟨frames, .after (.array (value :: items).reverse)⟩
  | ⟨.member members key :: frames, .after value⟩, .comma =>
    some ⟨frames, .key (Entries.set key value members)⟩
  | ⟨.member members key :: frames, .after value⟩, .closeObject =>
    some ⟨frames, .after (.object (Entries.set key value members))⟩
  | _, _ => none

/-- The value that has been read, once no container is open. -/
def result? : Reading → Option Json
  | ⟨[], .after value⟩ => some value
  | _ => none

end Reading

/-- The value of a list of tokens. -/
def ofTokens? (limit : Nat) (tokens : List Token) : Option Json :=
  (tokens.foldlM (Reading.step? limit) ⟨[], .value⟩).bind Reading.result?

/-- The value of a text whose containers nest at most `limit` deep. -/
def parseWithin? (limit : Nat) (text : String) : Option Json :=
  (tokens? text).bind (ofTokens? limit)

/-- The value of a document, whose containers nest at most 127 deep. -/
def parse? (text : String) : Option Json := parseWithin? 127 text

end ZodModules.Json
