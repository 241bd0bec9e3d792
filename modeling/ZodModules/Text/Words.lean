/-!
# Words of identifiers

How a name splits into words and how words join to an identifier. A word ends at a space, between a
lower-case and an upper-case letter, between a letter and a digit either way round, and before the
last letter of an acronym that is followed by a lower-case one. Only ASCII letters have a case.
-/

namespace ZodModules.Words

/-- Whether a word ends between `c` and the text that follows it. -/
def endsAfter (c : Char) : List Char → Bool
  | [] => false
  | d :: rest =>
    (c.isLower && d.isUpper) ||
    (c.isLower && d.isDigit) ||
    (c.isUpper && d.isDigit) ||
    (c.isDigit && d.isLower) ||
    (c.isDigit && d.isUpper) ||
    (c.isUpper && d.isUpper && (rest.head?.any Char.isLower))

/-- The words of a text; two spaces in a row enclose an empty word. -/
def split : List Char → List (List Char)
  | [] => [[]]
  | c :: rest =>
    if c = ' ' then [] :: split rest
    else if endsAfter c rest then [c] :: split rest
    else
      match split rest with
      | [] => [[c]]
      | word :: words => (c :: word) :: words

/-- The word in lower case. -/
def lower (word : List Char) : List Char := word.map Char.toLower

/-- The word with its first letter in upper case and the others in lower case. -/
def capitalize : List Char → List Char
  | [] => []
  | c :: rest => c.toUpper :: lower rest

/-- Every word capitalized. -/
def pascal (text : List Char) : List Char := (split text).flatMap capitalize

/-- The first word in lower case, every further one capitalized. -/
def camel (text : List Char) : List Char :=
  match split text with
  | [] => []
  | word :: words => lower word ++ words.flatMap capitalize

end ZodModules.Words
