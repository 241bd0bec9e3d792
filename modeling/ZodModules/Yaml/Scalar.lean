import ZodModules.Text.Digits
import ZodModules.Yaml.Cursor

/-!
# Scalars of YAML text

How plain, quoted and block scalars are read. Between the words of a plain or quoted scalar a single
line break stands for a space, and of several the first one for nothing.
-/

namespace ZodModules.Yaml

/-- What stands between two words of a scalar. -/
structure Gap where
  /-- The blanks of a gap within a line. -/
  blanks : List Char := []
  /-- Whether the gap has line breaks. -/
  broken : Bool := false
  /-- What the first line break stands for; nothing if it is escaped. -/
  first : List Char := []
  /-- What the other line breaks stand for. -/
  others : List Char := []

namespace Gap

/-- The text that a gap stands for. -/
def text (gap : Gap) : List Char :=
  if gap.broken then
    if gap.first = ['\n'] then (if gap.others.isEmpty then [' '] else gap.others)
    else gap.first ++ gap.others
  else gap.blanks

/-- Whether there is anything between the words. -/
def isEmpty (gap : Gap) : Bool := !gap.broken && gap.blanks.isEmpty

/-- Reads the rest of a gap. A tab before the column `indent` of a further line is refused. -/
def read? (indent : Int) : Nat → Cursor → Gap → Option (Cursor × Gap)
  | 0, _, _ => none
  | fuel + 1, cursor, gap =>
    if cursor.atBlank then
      if gap.broken then
        if cursor.at? '\t' && (cursor.column : Int) < indent then none
        else read? indent fuel cursor.next gap
      else
        read? indent fuel cursor.next { gap with blanks := gap.blanks ++ cursor.rest.take 1 }
    else if cursor.atBreak then
      let (text, next) := cursor.readBreak
      if gap.broken then read? indent fuel next { gap with others := gap.others ++ text }
      else read? indent fuel next { broken := true, first := text }
    else some (cursor, gap)

end Gap

/-! ## Plain scalars -/

/-- The characters that end a plain scalar inside a flow collection. -/
def isFlowMark (c : Char) : Bool := c == ',' || c == '[' || c == ']' || c == '{' || c == '}'

/-- The rest of a word of a plain scalar, last character first. Inside a flow collection a colon
right before a mark of the collection is refused. -/
def plainWord? (inFlow : Bool) : Nat → Cursor → List Char → Option (List Char × Cursor)
  | 0, _, _ => none
  | fuel + 1, cursor, word =>
    match cursor.head? with
    | none => some (word, cursor)
    | some c =>
      if endsWord (some c) then some (word, cursor)
      else if inFlow && c == ':' && (cursor.peek? 1).any (fun d => isFlowMark d || d == '?') then none
      else if (c == ':' && endsWord (cursor.peek? 1)) || (inFlow && isFlowMark c) then
        some (word, cursor)
      else plainWord? inFlow fuel cursor.next (c :: word)

/-- The rest of a plain scalar, last character first, the position after it, and whether it ends
with a gap over several lines. Outside of flow collections it ends before a line that is indented
less than `indent`. -/
def plainFrom? (inFlow : Bool) (indent : Int) :
    Nat → Cursor → List Char → Gap → Option (List Char × Cursor × Bool)
  | 0, _, _, _ => none
  | fuel + 1, cursor, text, gap =>
    if cursor.atDocumentMark || cursor.at? '#' then some (text, cursor, gap.broken)
    else
      match plainWord? inFlow (fuel + 1) cursor [] with
      | none => none
      | some (word, afterWord) =>
        let (text, gap) :=
          if word.isEmpty then (text, gap) else (word ++ (gap.text.reverse ++ text), {})
        if !(afterWord.atBlank || afterWord.atBreak) then some (text, afterWord, gap.broken)
        else
          match Gap.read? indent (fuel + 1) afterWord gap with
          | none => none
          | some (cursor, gap) =>
            if !inFlow && (cursor.column : Int) < indent then some (text, cursor, gap.broken)
            else plainFrom? inFlow indent fuel cursor text gap

/-- A plain scalar, the position after it, and whether it ends with a gap over several lines. -/
def plain? (inFlow : Bool) (indent : Int) (cursor : Cursor) : Option (String × Cursor × Bool) :=
  (plainFrom? inFlow indent (cursor.rest.length + 1) cursor [] {}).map fun (text, rest) =>
    (String.ofList text.reverse, rest)

/-! ## Quoted scalars -/

/-- The character of an escape of one letter. -/
def escaped? (c : Char) : Option Char :=
  match c with
  | '0' => some '\x00'
  | 'a' => some '\x07'
  | 'b' => some '\x08'
  | 't' | '\t' => some '\t'
  | 'n' => some '\n'
  | 'v' => some '\x0b'
  | 'f' => some '\x0c'
  | 'r' => some '\r'
  | 'e' => some '\x1b'
  | ' ' | '"' | '/' | '\\' => some c
  | 'N' => some '\u0085'
  | '_' => some '\u00a0'
  | 'L' => some '\u2028'
  | 'P' => some '\u2029'
  | _ => none

/-- The number of hexadecimal digits after the letter of an escape. -/
def hexDigits? (c : Char) : Option Nat :=
  match c with
  | 'x' => some 2
  | 'u' => some 4
  | 'U' => some 8
  | _ => none

/-- The character of an escape after its backslash, and the position after it. -/
def escape? (cursor : Cursor) : Option (Char × Cursor) :=
  match cursor.head? with
  | none => none
  | some c =>
    match escaped? c, hexDigits? c with
    | some char, _ => some (char, cursor.next)
    | none, some count =>
      let digits := cursor.next.rest.take count
      if digits.length = count then
        ((Text.digitsValue? 16 digits).bind Text.charOfCode?).map fun char => (char, cursor.next.skip count)
      else none
    | none, none => none

/-- The rest of a word of a quoted scalar, last character first. It ends before a blank, a break or
the closing quote, or after an escaped line break, of which the last component tells. -/
def quotedWord? (quote : Char) : Nat → Cursor → List Char → Option (List Char × Cursor × Bool)
  | 0, _, _ => none
  | fuel + 1, cursor, word =>
    match cursor.head? with
    | none => some (word, cursor, false)
    | some c =>
      if endsWord (some c) then some (word, cursor, false)
      else if quote == '\'' && c == '\'' && cursor.peek? 1 == some '\'' then
        quotedWord? quote fuel (cursor.skip 2) ('\'' :: word)
      else if c == quote then some (word, cursor, false)
      else if quote == '"' && c == '\\' then
        if (cursor.peek? 1).any isBreak then some (word, cursor.next.readBreak.2, true)
        else
          match escape? cursor.next with
          | none => none
          | some (char, cursor) => quotedWord? quote fuel cursor (char :: word)
      else quotedWord? quote fuel cursor.next (c :: word)

/-- The rest of a quoted scalar, last character first, and the position before its closing quote. -/
def quotedFrom? (quote : Char) : Nat → Cursor → List Char → Option (List Char × Cursor)
  | 0, _, _ => none
  | fuel + 1, cursor, text =>
    if cursor.atDocumentMark || cursor.atEnd then none
    else
      match quotedWord? quote (fuel + 1) cursor [] with
      | none => none
      | some (word, cursor, escapedBreak) =>
        if cursor.at? quote then some (word ++ text, cursor)
        else
          match Gap.read? 0 (fuel + 1) cursor { broken := escapedBreak } with
          | none => none
          | some (cursor, gap) => quotedFrom? quote fuel cursor (gap.text.reverse ++ (word ++ text))

/-- The scalar in quotes, and the position after it. -/
def quoted? (cursor : Cursor) : Option (String × Cursor) :=
  match cursor.head? with
  | none => none
  | some quote =>
    (quotedFrom? quote (cursor.rest.length + 1) cursor.next []).map fun (text, cursor) =>
      (String.ofList text.reverse, cursor.next)

/-! ## Block scalars -/

/-- What happens to the line breaks at the end of a block scalar. -/
inductive Chomping where
  /-- All are dropped. -/
  | strip
  /-- The first is kept. -/
  | clip
  /-- All are kept. -/
  | keep
deriving DecidableEq

/-- What the header of a block scalar says: the chomping and the indentation, if it is given. -/
structure BlockHeader where
  chomping : Chomping := .clip
  increment : Option Nat := none

/-- The chomping that a mark gives. -/
def chomping? : Option Char → Option Chomping
  | some '+' => some .keep
  | some '-' => some .strip
  | _ => none

/-- The indentation that a digit gives; zero is refused. -/
def increment? (cursor : Cursor) : Option (Option Nat × Cursor) :=
  match cursor.head? with
  | some c =>
    if c.isDigit then (if c = '0' then none else some (some (c.toNat - 48), cursor.next))
    else some (none, cursor)
  | none => some (none, cursor)

/-- The header of a block scalar after its indicator, with its two marks in either order. -/
def blockHeader? (cursor : Cursor) : Option (BlockHeader × Cursor) :=
  match chomping? cursor.head? with
  | some chomping =>
    (increment? cursor.next).map fun (increment, cursor) => (⟨chomping, increment⟩, cursor)
  | none =>
    match increment? cursor with
    | none => none
    | some (none, cursor) => some ({}, cursor)
    | some (increment, cursor) =>
      match chomping? cursor.head? with
      | some chomping => some (⟨chomping, increment⟩, cursor.next)
      | none => some (⟨.clip, increment⟩, cursor)

/-- The line breaks before a line of a block scalar, the greatest column reached and the position of
the line. Spaces are passed up to the indentation, or all if it is not known yet. -/
def blockBreaks? (indent : Option Nat) :
    Nat → Cursor → List Char → Nat → Option (List Char × Nat × Cursor)
  | 0, _, _, _ => none
  | fuel + 1, cursor, breaks, widest =>
    let spaces := (cursor.rest.takeWhile (· == ' ')).length
    let count := match indent with
      | none => spaces
      | some indent => min spaces (indent - cursor.column)
    let cursor := cursor.skip count
    let widest := max widest cursor.column
    if cursor.at? '\t' && indent.all (cursor.column < ·) then none
    else if cursor.atBreak then
      let (text, cursor) := cursor.readBreak
      blockBreaks? indent fuel cursor (breaks ++ text) widest
    else some (breaks, widest, cursor)

/-- The text of a block scalar so far, with the breaks that follow its last line. -/
structure Block where
  /-- The lines, last character first. -/
  text : List Char := []
  /-- What the break after the last line stands for. -/
  lastBreak : List Char := []
  /-- What the breaks of the empty lines after it stand for. -/
  emptyLines : List Char := []
  /-- Whether the last line began with a blank. -/
  wasIndented : Bool := false

/-- The lines of a block scalar, each at the column `indent`. When folding, the break between two
lines that begin with no blank stands for a space. -/
def blockLines? (folded : Bool) (indent : Nat) : Nat → Cursor → Block → Option (Block × Cursor)
  | 0, _, _ => none
  | fuel + 1, cursor, block =>
    if cursor.column != indent || cursor.atEnd then some (block, cursor)
    else
      let isIndented := cursor.atBlank
      let joint :=
        if folded && block.lastBreak == ['\n'] && !block.wasIndented && !isIndented then
          if block.emptyLines.isEmpty then [' '] else []
        else block.lastBreak
      let (line, lineEnd) := cursor.takeWhile (!isBreak ·)
      let (lastBreak, lineEnd) := lineEnd.readBreak
      match blockBreaks? (some indent) (fuel + 1) lineEnd [] 0 with
      | none => none
      | some (emptyLines, _, next) =>
        blockLines? folded indent fuel next {
          text := line.reverse ++ ((joint ++ block.emptyLines).reverse ++ block.text)
          lastBreak := lastBreak
          emptyLines := emptyLines
          wasIndented := isIndented }

/-- A block scalar after its indicator, and the position after it. Without a given indentation its
first line that is not empty gives it, at least one column right of the parent. -/
def block? (folded : Bool) (parentIndent : Int) (cursor : Cursor) : Option (String × Cursor) := do
  let (header, cursor) ← blockHeader? cursor
  let cursor ← cursor.finishLine?
  let given := header.increment.map fun n => (max parentIndent 0).toNat + n
  let fuel := cursor.rest.length + 1
  let (breaks, widest, cursor) ← blockBreaks? given fuel cursor [] 0
  let indent := given.getD (max (max widest (parentIndent + 1).toNat) 1)
  let (block, cursor) ← blockLines? folded indent fuel cursor { emptyLines := breaks }
  let ending := match header.chomping with
    | .strip => []
    | .clip => block.lastBreak
    | .keep => block.lastBreak ++ block.emptyLines
  return (String.ofList (block.text.reverse ++ ending), cursor)

end ZodModules.Yaml
