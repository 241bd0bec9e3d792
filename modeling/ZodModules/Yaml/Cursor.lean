/-!
# Positions in YAML text

A `Cursor` is what remains of a text together with the line, the column and the number of bytes before
it. Columns count characters; bytes are those of the UTF-8 encoding. Line breaks are moved over as
such, all other characters one by one.
-/

namespace ZodModules.Yaml

/-- The characters that may stand in a stream. -/
def isPrintable (c : Char) : Bool :=
  let n := c.toNat
  n == 0x09 || n == 0x0A || n == 0x0D || (0x20 ≤ n && n ≤ 0x7E) || n == 0x85 ||
    (0xA0 ≤ n && n ≤ 0xD7FF) || (0xE000 ≤ n && n ≤ 0xFFFD) || 0x10000 ≤ n

/-- Whether a character separates words within a line. -/
def isBlank (c : Char) : Bool := c == ' ' || c == '\t'

/-- Whether a character breaks lines. -/
def isBreak (c : Char) : Bool :=
  c == '\n' || c == '\r' || c == '\u0085' || c == '\u2028' || c == '\u2029'

/-- The characters of anchors, tag handles and directive names. -/
def isWordChar (c : Char) : Bool := c.isAlphanum || c == '_' || c == '-'

/-- Whether a word ends before what comes next; `none` is the end of the text. -/
def endsWord : Option Char → Bool
  | none => true
  | some c => isBlank c || isBreak c

/-- Whether a line ends before what comes next. -/
def endsLine : Option Char → Bool
  | none => true
  | some c => isBreak c

/-- A position in a text. -/
structure Cursor where
  rest : List Char
  line : Nat := 0
  column : Nat := 0
  /-- The number of bytes before this position. -/
  offset : Nat := 0

namespace Cursor

/-- The next character. -/
def head? (cursor : Cursor) : Option Char := cursor.rest.head?

/-- The character that follows a number of others. -/
def peek? (cursor : Cursor) (count : Nat) : Option Char := cursor.rest[count]?

/-- Whether the next character is the given one. -/
def at? (cursor : Cursor) (c : Char) : Bool := cursor.head? == some c

/-- Whether the text ends here. -/
def atEnd (cursor : Cursor) : Bool := cursor.rest.isEmpty

/-- Whether the next character is a blank. -/
def atBlank (cursor : Cursor) : Bool := cursor.head?.any isBlank

/-- Whether a line break is next. -/
def atBreak (cursor : Cursor) : Bool := cursor.head?.any isBreak

/-- The number of bytes of some characters. -/
def byteCount (chars : List Char) : Nat := chars.foldl (fun count c => count + c.utf8Size) 0

/-- Moves over some characters of a line. -/
def skip (cursor : Cursor) (count : Nat) : Cursor :=
  { cursor with
    rest := cursor.rest.drop count
    column := cursor.column + count
    offset := cursor.offset + byteCount (cursor.rest.take count) }

/-- Moves over one character of a line. -/
def next (cursor : Cursor) : Cursor := cursor.skip 1

/-- The longest run of characters with a property, and the position after it. -/
def takeWhile (cursor : Cursor) (p : Char → Bool) : List Char × Cursor :=
  let run := cursor.rest.takeWhile p
  (run, cursor.skip run.length)

/-- Moves over the characters with a property. -/
def skipWhile (cursor : Cursor) (p : Char → Bool) : Cursor := (cursor.takeWhile p).2

/-- Moves to the start of the next line, over a line break of the given characters. -/
def nextLine (cursor : Cursor) (lineBreak : List Char) : Cursor :=
  { rest := cursor.rest.drop lineBreak.length
    line := cursor.line + 1
    column := 0
    offset := cursor.offset + byteCount lineBreak }

/-- The character that a line break stands for, and the position after it; nothing at the end of
the text. -/
def readBreak (cursor : Cursor) : List Char × Cursor :=
  match cursor.rest with
  | '\r' :: '\n' :: _ => (['\n'], cursor.nextLine ['\r', '\n'])
  | c :: _ =>
    if c = '\r' ∨ c = '\n' ∨ c = '\u0085' then (['\n'], cursor.nextLine [c])
    else if c = '\u2028' ∨ c = '\u2029' then ([c], cursor.nextLine [c])
    else ([], cursor)
  | [] => ([], cursor)

/-- Moves over a comment, if one is next, up to the end of its line. -/
def skipComment (cursor : Cursor) : Cursor :=
  if cursor.at? '#' then cursor.skipWhile (!isBreak ·) else cursor

/-- Moves over the blanks, the comment and the break that may end a line; `none` if anything else
stands before its end. -/
def finishLine? (cursor : Cursor) : Option Cursor :=
  let cursor := (cursor.skipWhile isBlank).skipComment
  if endsLine cursor.head? then some cursor.readBreak.2 else none

/-- Whether a line begins here with a mark of three characters that stands for itself. -/
def atMark (cursor : Cursor) (mark : Char) : Bool :=
  cursor.column == 0 && cursor.rest.take 3 == [mark, mark, mark] && endsWord (cursor.peek? 3)

/-- Whether a document ends or begins here. -/
def atDocumentMark (cursor : Cursor) : Bool := cursor.atMark '-' || cursor.atMark '.'

end Cursor

end ZodModules.Yaml
