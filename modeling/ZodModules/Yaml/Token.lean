import ZodModules.Yaml.Scalar

/-!
# Tokens of YAML text

The marks, words and scalars of a stream, and how those that are more than one character are read.
-/

namespace ZodModules.Yaml

/-- The text of a tag, or a part of it. Percent escapes may spell out a character that there is not,
as they do by the bytes of a surrogate; such a one is `none`. -/
abbrev TagText := List (Option Char)

namespace TagText

/-- The text of some characters. -/
def ofString (text : String) : TagText := text.toList.map some

/-- Whether all characters of a text are there. -/
def isReadable (text : TagText) : Bool := text.all Option.isSome

end TagText

/-- A lexical unit of a stream. The start and end of block collections follow from indentation. -/
inductive Token where
  | versionDirective (major minor : Nat)
  | tagDirective (handle : String) (uri : TagText)
  | documentStart
  | documentEnd
  | blockSequenceStart
  | blockMappingStart
  | blockEnd
  | flowSequenceStart
  | flowSequenceEnd
  | flowMappingStart
  | flowMappingEnd
  | blockEntry
  | flowEntry
  | key
  | value
  | alias (name : String)
  | anchor (name : String)
  | tag (handle : String) (suffix : TagText)
  | scalar (text : String) (plain : Bool)
deriving DecidableEq

namespace Token

/-- The rest of an anchor or alias after its mark. -/
def anchorName? (cursor : Cursor) : Option (String × Cursor) :=
  let (name, cursor) := cursor.takeWhile isWordChar
  let mayFollow (c : Char) : Bool :=
    c == '?' || c == ':' || c == ',' || c == ']' || c == '}' || c == '%' || c == '@' ||
      c == '\x60'
  if name.isEmpty then none
  else if endsWord cursor.head? || cursor.head?.any mayFollow then
    some (String.ofList name, cursor)
  else none

/-- The characters of tags; those in angle brackets have some more. -/
def isUriChar (verbatim : Bool) (c : Char) : Bool :=
  isWordChar c ||
    [';', '/', '?', ':', '@', '&', '=', '+', '$', '.', '%', '!', '~', '*', '\'', '(', ')'].contains c ||
    (verbatim && (c == ',' || c == '[' || c == ']'))

/-- The byte of a percent escape, and what follows it. -/
def escapedByte? : List Char → Option (UInt8 × List Char)
  | '%' :: a :: b :: rest =>
    (Text.digitsValue? 16 [a, b]).map fun byte => (byte.toUInt8, rest)
  | _ => none

/-- The number of bytes that follow the first byte of a character. -/
def furtherBytes? (first : UInt8) : Option Nat :=
  if first < 0x80 then some 0
  else if first < 0xC0 then none
  else if first < 0xE0 then some 1
  else if first < 0xF0 then some 2
  else if first < 0xF8 then some 3
  else none

/-- The further bytes of a character, each of them escaped. -/
def escapedBytes? : Nat → List Char → Option (List UInt8 × List Char)
  | 0, text => some ([], text)
  | count + 1, text => do
    let (byte, rest) ← escapedByte? text
    guard (0x80 ≤ byte && byte < 0xC0)
    let (bytes, rest) ← escapedBytes? count rest
    return (byte :: bytes, rest)

/-- The character that the percent escapes at the start of a text spell out byte by byte, and what
follows them. -/
def escapedChar? (text : List Char) : Option (Option Char × List Char) := do
  let (first, rest) ← escapedByte? text
  let (bytes, rest) ← escapedBytes? (← furtherBytes? first) rest
  let decoded := String.fromUTF8? ⟨(first :: bytes).toArray⟩
  return (decoded.bind fun text => text.toList.head?, rest)

/-- The text with its percent escapes decoded. -/
def unescape? : Nat → List Char → Option TagText
  | 0, _ => none
  | _ + 1, [] => some []
  | fuel + 1, c :: rest =>
    if c = '%' then do
      let (char, rest) ← escapedChar? ('%' :: rest)
      return char :: (← unescape? fuel rest)
    else (unescape? fuel rest).map (some c :: ·)

/-- The text of a tag's characters, and the position after them. It ends before the character of
code zero, if that one is spelled out. -/
def uri? (verbatim : Bool) (cursor : Cursor) : Option (TagText × Cursor) :=
  let (raw, cursor) := cursor.takeWhile (isUriChar verbatim)
  (unescape? (raw.length + 1) raw).map fun text => (text.takeWhile (· != some '\x00'), cursor)

/-- The text of a tag's characters of which there must be one, and the position after them. -/
def someUri? (verbatim : Bool) (cursor : Cursor) : Option (TagText × Cursor) :=
  if cursor.head?.any (isUriChar verbatim) then uri? verbatim cursor else none

/-- A run of word characters between exclamation marks; the second one may be missing. -/
def handle (cursor : Cursor) : List Char × Cursor :=
  let (word, next) := cursor.next.takeWhile isWordChar
  if next.at? '!' then ('!' :: word ++ ['!'], next.next) else ('!' :: word, next)

/-- The handle and the suffix of a tag. A single mark is the suffix of no handle. -/
def tagParts? (cursor : Cursor) : Option (String × TagText × Cursor) :=
  if cursor.peek? 1 = some '<' then
    match someUri? true (cursor.skip 2) with
    | some (suffix, cursor) => if cursor.at? '>' then some ("", suffix, cursor.next) else none
    | none => none
  else
    let (name, afterName) := handle cursor
    if 1 < name.length ∧ name.getLast? = some '!' then
      (someUri? false afterName).map fun (suffix, cursor) => (String.ofList name, suffix, cursor)
    else
      (uri? false afterName).map fun (suffix, cursor) =>
        let suffix := (name.drop 1).map some ++ suffix
        if suffix.isEmpty then ("", [some '!'], cursor) else ("!", suffix, cursor)

/-- The tag that is next. -/
def tag? (inFlow : Bool) (cursor : Cursor) : Option (Token × Cursor) :=
  match tagParts? cursor with
  | none => none
  | some (handle, suffix, cursor) =>
    if endsWord cursor.head? || (inFlow && cursor.at? ',') then some (.tag handle suffix, cursor)
    else none

/-- A number of at most nine digits. -/
def number? (cursor : Cursor) : Option (Nat × Cursor) :=
  let (digits, cursor) := cursor.takeWhile Char.isDigit
  if digits.isEmpty ∨ 9 < digits.length then none else some (Text.decimalValue digits, cursor)

/-- The version that a directive states. -/
def version? (cursor : Cursor) : Option (Token × Cursor) :=
  match number? (cursor.skipWhile isBlank) with
  | none => none
  | some (major, cursor) =>
    if cursor.at? '.' then
      (number? cursor.next).map fun (minor, cursor) => (.versionDirective major minor, cursor)
    else none

/-- The meaning that a directive gives to a tag handle. -/
def tagMeaning? (cursor : Cursor) : Option (Token × Cursor) :=
  let start := cursor.skipWhile isBlank
  if start.at? '!' then
    let (name, afterName) := handle start
    if name = ['!'] ∨ name.getLast? = some '!' then
      if afterName.atBlank then
        match someUri? true (afterName.skipWhile isBlank) with
        | some (uri, cursor) =>
          if endsWord cursor.head? then some (.tagDirective (String.ofList name) uri, cursor)
          else none
        | none => none
      else none
    else none
  else none

/-- The directive that is next, with the rest of its line. -/
def directive? (cursor : Cursor) : Option (Token × Cursor) := do
  let (name, cursor) := cursor.next.takeWhile isWordChar
  if name.isEmpty || !endsWord cursor.head? then none
  else
    let (token, cursor) ←
      if name = ['Y', 'A', 'M', 'L'] then version? cursor
      else if name = ['T', 'A', 'G'] then tagMeaning? cursor
      else none
    return (token, ← cursor.finishLine?)

end Token

end ZodModules.Yaml
