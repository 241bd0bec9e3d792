/-!
# Pieces of code

A program text as a sequence of words, string literals and other characters, as far as telling
identifiers from the contents of strings needs it.
-/

namespace ZodModules.Code

/-- A piece of a program text. -/
inductive Piece where
  /-- A maximal run of identifier characters. -/
  | word (text : List Char)
  /-- A string literal with its quotes; at the end of the text the closing one may be missing. -/
  | literal (text : List Char)
  | other (char : Char)
deriving DecidableEq

/-- The characters of identifiers. -/
def isWordChar (c : Char) : Bool := c.isAlphanum || c == '_' || c == '$'

/-- Whether a character begins a string literal, which it then ends as well. -/
def isQuote (c : Char) : Bool := c == '"' || c == '\''

/-- The piece that is being read, last character first. -/
inductive Pending where
  | nothing
  | word (read : List Char)
  /-- Inside quotes; `escaped` right after a backslash that escapes. -/
  | literal (quote : Char) (escaped : Bool) (read : List Char)

/-- What a character outside of words and literals begins, and the piece that it is. -/
def start (c : Char) : Pending × List Piece :=
  if isQuote c then (.literal c false [c], [])
  else if isWordChar c then (.word [c], [])
  else (.nothing, [.other c])

/-- The pieces of a text that begins inside the pending one. -/
def piecesFrom : Pending → List Char → List Piece
  | .nothing, [] => []
  | .word read, [] => [.word read.reverse]
  | .literal _ _ read, [] => [.literal read.reverse]
  | .nothing, c :: rest => (start c).2 ++ piecesFrom (start c).1 rest
  | .word read, c :: rest =>
    if isWordChar c then piecesFrom (.word (c :: read)) rest
    else .word read.reverse :: (start c).2 ++ piecesFrom (start c).1 rest
  | .literal quote true read, c :: rest => piecesFrom (.literal quote false (c :: read)) rest
  | .literal quote false read, c :: rest =>
    if c = '\\' then piecesFrom (.literal quote true (c :: read)) rest
    else if c = quote then .literal (c :: read).reverse :: piecesFrom .nothing rest
    else piecesFrom (.literal quote false (c :: read)) rest

/-- The pieces of a text. -/
def pieces (text : List Char) : List Piece := piecesFrom .nothing text

/-- The text of a piece. -/
def Piece.text : Piece → List Char
  | word text => text
  | literal text => text
  | other char => [char]

/-- A piece after renaming. Only a word that begins with no digit is an identifier. -/
def Piece.rename (renamed? : String → Option String) : Piece → List Char
  | word text =>
    if text.head?.any Char.isDigit then text
    else
      match renamed? (String.ofList text) with
      | none => text
      | some name => name.toList
  | piece => piece.text

/-- The text with all identifiers renamed at once. -/
def rename (renamed? : String → Option String) (code : String) : String :=
  String.ofList ((pieces code.toList).flatMap (Piece.rename renamed?))

end ZodModules.Code
