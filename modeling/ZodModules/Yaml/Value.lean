import ZodModules.Data.Entries
import ZodModules.Json.Token
import ZodModules.Yaml.Node

/-!
# Values of YAML documents

The JSON value that a document stands for. The text of a plain scalar decides what it is; tags of
the core schema decide for any scalar. What has a tag of its own, which begins with an exclamation
mark, has no value; a tag that cannot be read is none.
-/

namespace ZodModules.Yaml

/-! ## Scalars -/

/-- Whether a word is a null. -/
def isNullWord (text : String) : Bool := ["null", "Null", "NULL", "~"].contains text

/-- The truth value that a word is. -/
def bool? (text : String) : Option Bool :=
  if ["true", "True", "TRUE"].contains text then some true
  else if ["false", "False", "FALSE"].contains text then some false
  else none

/-- Whether a text is two or more digits of which the first is a zero. -/
def isPaddedNumber (text : List Char) : Bool :=
  1 < text.length && text.head? == some '0' && text.all Char.isDigit

/-- The natural number that a text without sign is: hexadecimal, octal or binary after `0x`, `0o`
or `0b`, else decimal without leading zeros. -/
def natural? : List Char → Option Nat
  | '0' :: 'x' :: digits => Text.digitsValue? 16 digits
  | '0' :: 'o' :: digits => Text.digitsValue? 8 digits
  | '0' :: 'b' :: digits => Text.digitsValue? 2 digits
  | digits => if isPaddedNumber digits then none else Text.digitsValue? 10 digits

/-- The integer that a text is. -/
def integer? (text : List Char) : Option Int :=
  let (negative, rest) := Decimal.splitSign text
  (natural? rest).map fun (n : Nat) => if negative then -n else n

/-- Whether a word is an infinity or not a number. -/
def isNonFinite (text : String) : Bool :=
  [".inf", ".Inf", ".INF", "+.inf", "+.Inf", "+.INF", "-.inf", "-.Inf", "-.INF", ".nan", ".NaN",
    ".NAN"].contains text

/-- The value of a text as a float. What is not finite is null. -/
def float? (text : String) : Option Json :=
  if isNonFinite text then some .null
  else (Decimal.binary64? text.toList).map fun x => .number (.float x)

/-- Whether an integer that is not kept exactly is refused instead of rounded: those of 128 bits
are. -/
def isRefused (n : Int) : Bool := -Int.pow 2 127 ≤ n && n < Int.pow 2 128

/-- The value of a plain scalar without tag. -/
def plainValue? (text : String) : Option Json :=
  let chars := text.toList
  if text.isEmpty || isNullWord text then some .null
  else
    match bool? text, integer? chars with
    | some b, _ => some (.bool b)
    | none, some n =>
      if Json.Number.isExact n then some (.number (.integer n))
      else if isRefused n then none
      else some ((float? text).getD (.string text))
    | none, none =>
      if isPaddedNumber (Decimal.splitSign chars).2 then some (.string text)
      else some ((float? text).getD (.string text))

/-- A tag of the core schema. -/
def coreTag (name : String) : TagText := .ofString ("tag:yaml.org,2002:" ++ name)

/-- Whether a tag is no tag of a common schema. -/
def TagText.isOwn (tag : TagText) : Bool := tag.head? == some (some '!')

/-- Whether a node with a tag has no value. -/
def TagText.isForeign (tag : TagText) : Bool := tag.isOwn && tag.isReadable

/-- The value of a scalar. -/
def scalarValue? (tag : Option TagText) (text : String) (plain : Bool) : Option Json :=
  let untagged := if plain then plainValue? text else some (.string text)
  match tag with
  | none => untagged
  | some tag =>
    if tag = coreTag "bool" then (bool? text).map .bool
    else if tag = coreTag "int" then
      ((integer? text.toList).filter Json.Number.isExact).map fun n => .number (.integer n)
    else if tag = coreTag "float" then float? text
    else if tag = coreTag "null" then (if isNullWord text then some .null else none)
    else if tag.isForeign then none
    else if tag.isOwn then untagged
    else some (.string text)

/-! ## Nodes -/

/-- What is read with a number of aliases left that may still be followed. -/
abbrev Valuation := StateT Nat Option

/-- The node that a node stands for. -/
def follow (anchored : List (Nat × Node)) : Node → Valuation Node
  | .alias slot => do
    guard (0 < (← get))
    modify (· - 1)
    anchored.lookup slot
  | node => return node

/-- The text of a key, which is a scalar. -/
def keyText (anchored : List (Nat × Node)) (key : Node) : Valuation String := do
  match ← follow anchored key with
  | .scalar _ text _ => return text
  | _ => failure

/-- Whether a collection with some properties has a value. -/
def Properties.allowCollection (properties : Properties) : Bool :=
  properties.tag.all (!·.isForeign)

/-- The value of a node whose collections nest at most `depth` deep, with the nodes of the slots. Of
two entries with one key the later counts, at the place of the earlier. -/
def value (anchored : List (Nat × Node)) : Nat → Node → Valuation Json
  | depth, node => do
    match ← follow anchored node, depth with
    | .alias _, _ | .sequence .., 0 | .mapping .., 0 => failure
    | .scalar properties text plain, _ => scalarValue? properties.tag text plain
    | .sequence properties items, depth + 1 =>
      guard properties.allowCollection
      return .array (← items.mapM (value anchored depth))
    | .mapping properties entries, depth + 1 =>
      guard properties.allowCollection
      let members ← entries.mapM fun (key, item) => do
        return (← keyText anchored key, ← value anchored depth item)
      return .object (members.foldl (fun all m => Entries.set m.1 m.2 all) [])

/-- The value of a document. Collections nest at most 128 deep, and aliases are followed at most a
hundred times as often as the document has nodes. A slot holds the last node that took it. -/
def Node.value? (node : Node) : Option Json :=
  ((value node.anchored.reverse 128 node).run (100 * node.size)).map Prod.fst

/-- The value of the document of a text. -/
def parse? (text : String) : Option Json :=
  ((tokens? text).bind Node.ofTokens?).bind Node.value?

end ZodModules.Yaml
