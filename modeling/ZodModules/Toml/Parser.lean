import ZodModules.Toml.Basic
import ZodModules.Toml.Scalar

/-!
# Reading TOML

A document is a list of lines: headers of tables and keys with their values. Only strings in three
quotes, arrays and tables in braces go over several lines.
-/

namespace ZodModules.Toml

/-- Moves over blanks. -/
def skipBlanks (text : List Char) : List Char := text.dropWhile isBlank

/-- Moves over blanks, line breaks and comments, beginning inside a comment or not. -/
def skipLines : Bool → List Char → List Char
  | _, [] => []
  | _, '\r' :: '\n' :: rest => skipLines false rest
  | inComment, c :: rest =>
    if c = '\n' then skipLines false rest
    else if inComment then (if isTextChar c then skipLines true rest else c :: rest)
    else if c = '#' then skipLines true rest
    else if isBlank c then skipLines false rest
    else c :: rest

/-- What follows the rest of a line, which holds blanks and a comment at most. -/
def endLine? (text : List Char) : Option (List Char) :=
  let text := skipBlanks text
  let text := if text.head? = some '#' then text.dropWhile isTextChar else text
  match text with
  | [] => some []
  | '\n' :: rest => some rest
  | '\r' :: '\n' :: rest => some rest
  | _ => none

/-! ## Keys -/

/-- The characters of keys without quotes. -/
def isKeyChar (c : Char) : Bool := c.isAlphanum || c == '_' || c == '-'

/-- A key without points, and what follows it. -/
def simpleKey? (text : List Char) : Option (String × List Char) :=
  match text.takeWhile isKeyChar with
  | [] => lineString? text
  | name => some (String.ofList name, text.dropWhile isKeyChar)

/-- The parts of a key at most, and the arrays and tables in braces inside each other at most. -/
def maxDepth : Nat := 80

/-- The parts of a key, no more than a number of them, and what follows it and the blanks after it. -/
def keyParts? : Nat → List Char → Option (List String × List Char)
  | 0, _ => none
  | count + 1, text => do
    let (first, rest) ← simpleKey? text
    match skipBlanks rest with
    | '.' :: rest =>
      let (others, rest) ← keyParts? count (skipBlanks rest)
      return (first :: others, rest)
    | rest => return ([first], rest)

/-- A key, and what follows it and the blanks after it. -/
def key? (text : List Char) : Option (List String × List Char) := keyParts? maxDepth text

/-! ## Values -/

/-- The value that a word is. -/
def ofWord? (word : List Char) : Option Toml :=
  if word = ['t', 'r', 'u', 'e'] then some (.boolean true)
  else if word = ['f', 'a', 'l', 's', 'e'] then some (.boolean false)
  else
    match integer? word with
    | some n => some (if isReadableInteger n then .number else .excessive)
    | none =>
      if isFloat word then some (if isReadableFloat word then .number else .excessive)
      else if isDateTime word then some .dateTime
      else none

mutual

/-- A value in which arrays and tables are at most `depth` deep, and what follows it. -/
def value? : Nat → Nat → List Char → Option (Toml × List Char)
  | 0, _, _ => none
  | fuel + 1, depth, text =>
    match text, depth with
    | '[' :: rest, depth + 1 =>
      (items? fuel depth rest).map fun (items, rest) => (.array items, rest)
    | '{' :: rest, depth + 1 =>
      (members? fuel depth (skipLines false rest) []).map fun (members, rest) =>
        (.table .inline members, rest)
    | '"' :: _, _ | '\'' :: _, _ => (string? text).map fun (s, rest) => (.string s, rest)
    | text, _ => (ofWord? (word text).1).map fun value => (value, (word text).2)

/-- The rest of an array, and what follows it. A comma may stand after the last item. -/
def items? : Nat → Nat → List Char → Option (List Toml × List Char)
  | 0, _, _ => none
  | fuel + 1, depth, text =>
    match skipLines false text with
    | ']' :: rest => some ([], rest)
    | text => do
      let (item, rest) ← value? fuel depth text
      match skipLines false rest with
      | ',' :: rest =>
        let (items, rest) ← items? fuel depth rest
        return (item :: items, rest)
      | ']' :: rest => return ([item], rest)
      | _ => none

/-- The rest of a table in braces, and what follows it. A comma may stand after the last member. -/
def members? : Nat → Nat → List Char → Members → Option (Members × List Char)
  | 0, _, _, _ => none
  | fuel + 1, depth, text, members =>
    match text with
    | '}' :: rest => some (members, rest)
    | text => do
      let (key, value, rest) ← member? fuel depth text
      let members ← setDotted key value members
      match skipLines false rest with
      | ',' :: rest => members? fuel depth (skipLines false rest) members
      | '}' :: rest => return (members, rest)
      | _ => none

/-- A key with its value, and what follows them. -/
def member? : Nat → Nat → List Char → Option (List String × Toml × List Char)
  | 0, _, _ => none
  | fuel + 1, depth, text => do
    let (key, rest) ← key? text
    let (value, rest) ← value? fuel depth (skipBlanks (← after? '=' rest))
    return (key, value, rest)

end

/-! ## Documents -/

/-- A header, and what follows it: its key, and whether it stands in double brackets. -/
def header? : List Char → Option (List String × Bool × List Char)
  | '[' :: '[' :: rest => do
    let (key, rest) ← key? (skipBlanks rest)
    return (key, true, ← after? ']' (← after? ']' rest))
  | '[' :: rest => do
    let (key, rest) ← key? (skipBlanks rest)
    return (key, false, ← after? ']' rest)
  | _ => none

/-- The members of a document from a line on: those so far, and the header that they stand below;
no header is the empty one. -/
def document? : Nat → List String → Members → List Char → Option Members
  | 0, _, _, _ => none
  | fuel + 1, header, root, text =>
    match skipLines false text with
    | [] => some root
    | '[' :: rest => do
      let (header, isElement, rest) ← header? ('[' :: rest)
      let root ← alterTable (if isElement then openElement else openTable) header root
      document? fuel header root (← endLine? rest)
    | text => do
      let (key, value, rest) ← member? (fuel + 1) maxDepth text
      let root ←
        if header.isEmpty then setDotted key value root
        else alterTable (setBelow key value) header root
      document? fuel header root (← endLine? rest)

/-- The table that a text stands for. A byte order mark at its start counts for nothing. -/
def parse? (text : String) : Option Toml :=
  let chars := match text.toList with
    | '\ufeff' :: rest => rest
    | chars => chars
  (document? (2 * chars.length + 2) [] [] chars).map (.table .header)

end ZodModules.Toml
