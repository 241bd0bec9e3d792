import ZodModules.Decimal.Reading

/-!
# Scalars of TOML text

Strings in their four spellings, and which words are numbers, dates and times.
-/

namespace ZodModules.Toml

/-- Whether a character separates words within a line. -/
def isBlank (c : Char) : Bool := c == ' ' || c == '\t'

/-- The characters that strings and comments may hold as they are. -/
def isTextChar (c : Char) : Bool := c == '\t' || (32 ≤ c.toNat && c.toNat != 127)

/-! ## Strings -/

/-- The character of an escape of one letter. -/
def escaped? (c : Char) : Option Char :=
  match c with
  | 'b' => some '\x08'
  | 't' => some '\t'
  | 'n' => some '\n'
  | 'f' => some '\x0c'
  | 'r' => some '\r'
  | 'e' => some '\x1b'
  | '"' | '\\' => some c
  | _ => none

/-- The character with a code in hexadecimal digits. -/
def coded? (digits : List Char) : Option Char :=
  (Text.digitsValue? 16 digits).bind Text.charOfCode?

/-- What an escaped line break still passes over. -/
inductive Fold where
  | nothing
  /-- The blanks up to the line break. -/
  | toBreak
  /-- All blanks and line breaks. -/
  | overBlanks

/-- Adds characters before a text that is read. -/
def prepend (chars : List Char) : Option (List Char × List Char) → Option (List Char × List Char) :=
  Option.map fun (text, rest) => (chars ++ text, rest)

/-- What a quote ends, after it: a string of one line always; one of several lines if two more
quotes follow, with up to two before them that belong to the text. -/
def closing? (multiline : Bool) (quote : Char) (rest : List Char) :
    Option (List Char × List Char) :=
  if multiline then
    let further := (rest.takeWhile (· == quote)).length
    let inside := min (further - 2) 2
    if further < 2 then none else some (List.replicate inside quote, rest.drop (inside + 2))
  else some ([], rest)

/-- The rest of a string in double quotes, and what follows it. -/
def basicText (multiline : Bool) : Fold → List Char → Option (List Char × List Char)
  | .toBreak, '\n' :: rest => basicText multiline .overBlanks rest
  | .toBreak, '\r' :: '\n' :: rest => basicText multiline .overBlanks rest
  | .toBreak, c :: rest => if isBlank c then basicText multiline .toBreak rest else none
  | .overBlanks, ' ' :: rest => basicText multiline .overBlanks rest
  | .overBlanks, '\t' :: rest => basicText multiline .overBlanks rest
  | .overBlanks, '\n' :: rest => basicText multiline .overBlanks rest
  | .overBlanks, '\r' :: '\n' :: rest => basicText multiline .overBlanks rest
  | _, '"' :: rest =>
    match closing? multiline '"' rest with
    | some ending => some ending
    | none => prepend ['"'] (basicText multiline .nothing rest)
  | _, '\\' :: 'u' :: a :: b :: c :: d :: rest =>
    (coded? [a, b, c, d]).bind fun char => prepend [char] (basicText multiline .nothing rest)
  | _, '\\' :: 'U' :: a :: b :: c :: d :: e :: f :: g :: h :: rest =>
    (coded? [a, b, c, d, e, f, g, h]).bind fun char =>
      prepend [char] (basicText multiline .nothing rest)
  | _, '\\' :: 'x' :: a :: b :: rest =>
    (coded? [a, b]).bind fun char => prepend [char] (basicText multiline .nothing rest)
  | _, '\\' :: '\r' :: '\n' :: rest =>
    if multiline then basicText multiline .overBlanks rest else none
  | _, '\\' :: c :: rest =>
    if multiline && c == '\n' then basicText multiline .overBlanks rest
    else if multiline && isBlank c then basicText multiline .toBreak rest
    else (escaped? c).bind fun char => prepend [char] (basicText multiline .nothing rest)
  | _, '\r' :: '\n' :: rest =>
    if multiline then prepend ['\r', '\n'] (basicText multiline .nothing rest) else none
  | _, c :: rest =>
    if isTextChar c || (multiline && c == '\n') then
      prepend [c] (basicText multiline .nothing rest)
    else none
  | _, [] => none

/-- The rest of a string in single quotes, and what follows it. -/
def literalText (multiline : Bool) : List Char → Option (List Char × List Char)
  | '\'' :: rest =>
    match closing? multiline '\'' rest with
    | some ending => some ending
    | none => prepend ['\''] (literalText multiline rest)
  | '\r' :: '\n' :: rest =>
    if multiline then prepend ['\r', '\n'] (literalText multiline rest) else none
  | c :: rest =>
    if isTextChar c || (multiline && c == '\n') then prepend [c] (literalText multiline rest)
    else none
  | [] => none

/-- The text without a line break at its start. -/
def dropBreak : List Char → List Char
  | '\n' :: rest => rest
  | '\r' :: '\n' :: rest => rest
  | text => text

/-- A string of one line and what follows it. -/
def lineString? : List Char → Option (String × List Char)
  | '"' :: rest => (basicText false .nothing rest).map fun (s, rest) => (String.ofList s, rest)
  | '\'' :: rest => (literalText false rest).map fun (s, rest) => (String.ofList s, rest)
  | _ => none

/-- A string and what follows it. A line break right after three quotes does not count. -/
def string? : List Char → Option (String × List Char)
  | '"' :: '"' :: '"' :: rest =>
    (basicText true .nothing (dropBreak rest)).map fun (s, rest) => (String.ofList s, rest)
  | '\'' :: '\'' :: '\'' :: rest =>
    (literalText true (dropBreak rest)).map fun (s, rest) => (String.ofList s, rest)
  | text => lineString? text

/-! ## Numbers -/

/-- The digits of a run in which single underscores may stand between digits. -/
def ungroup? (isDigit : Char → Bool) : List Char → Option (List Char)
  | [] => none
  | [c] => if isDigit c then some [c] else none
  | c :: '_' :: rest => if isDigit c then (ungroup? isDigit rest).map (c :: ·) else none
  | c :: rest => if isDigit c then (ungroup? isDigit rest).map (c :: ·) else none

/-- The value of digits of a base, with underscores between them. -/
def grouped? (base : Nat) (text : List Char) : Option Nat :=
  (ungroup? (fun c => (Text.digitValue? base c).isSome) text).bind (Text.digitsValue? base)

/-- The value of a run of decimal digits without a leading zero. -/
def natural? (text : List Char) : Option Nat :=
  if 1 < text.length ∧ text.head? = some '0' then none else grouped? 10 text

/-- The integer that a word is. -/
def integer? : List Char → Option Int
  | '0' :: 'x' :: digits => (grouped? 16 digits).map Int.ofNat
  | '0' :: 'o' :: digits => (grouped? 8 digits).map Int.ofNat
  | '0' :: 'b' :: digits => (grouped? 2 digits).map Int.ofNat
  | word =>
    let (negative, digits) := Decimal.splitSign word
    (natural? digits).map fun (n : Nat) => if negative then -n else n

/-- Whether an integer can be read: it has 128 bits at most. -/
def isReadableInteger (n : Int) : Bool := -Int.pow 2 127 ≤ n && n < Int.pow 2 128

/-- Whether a text is an exponent part or nothing. -/
def isExponent : List Char → Bool
  | [] => true
  | e :: rest => (e == 'e' || e == 'E') && (grouped? 10 (Decimal.splitSign rest).2).isSome

/-- Whether a text is a fraction, an exponent part, or both in this order. -/
def isFloatEnd : List Char → Bool
  | '.' :: rest =>
    let isDigit (c : Char) : Bool := c.isDigit || c == '_'
    (grouped? 10 (rest.takeWhile isDigit)).isSome && isExponent (rest.dropWhile isDigit)
  | rest => isExponent rest

/-- Whether a word is a float. -/
def isFloat (word : List Char) : Bool :=
  let digits := (Decimal.splitSign word).2
  let isDigit (c : Char) : Bool := c.isDigit || c == '_'
  digits == ['i', 'n', 'f'] || digits == ['n', 'a', 'n'] ||
    ((natural? (digits.takeWhile isDigit)).isSome && isFloatEnd (digits.dropWhile isDigit))

/-- Whether a float can be read: it is not too large, or not finite by name. -/
def isReadableFloat (word : List Char) : Bool :=
  word.contains 'n' || (Decimal.binary64? (word.filter (· != '_'))).isSome

/-! ## Dates and times -/

/-- A number of a fixed count of digits up to a limit, and what follows it. -/
def field? (count least most : Nat) (text : List Char) : Option (Nat × List Char) :=
  let digits := text.take count
  let value := Text.decimalValue digits
  if digits.length = count ∧ digits.all Char.isDigit ∧ least ≤ value ∧ value ≤ most then
    some (value, text.drop count)
  else none

/-- What follows a character that must be next. -/
def after? (c : Char) : List Char → Option (List Char)
  | d :: rest => if d = c then some rest else none
  | [] => none

/-- The number of days of a month. -/
def daysOf (year month : Nat) : Nat :=
  if month = 2 then
    if year % 4 = 0 ∧ (year % 100 ≠ 0 ∨ year % 400 = 0) then 29 else 28
  else if month = 4 ∨ month = 6 ∨ month = 9 ∨ month = 11 then 30
  else 31

/-- What follows a date. -/
def afterDate? (text : List Char) : Option (List Char) := do
  let (year, text) ← field? 4 0 9999 text
  let (month, text) ← field? 2 1 12 (← after? '-' text)
  let (_, text) ← field? 2 1 (daysOf year month) (← after? '-' text)
  return text

/-- What follows the hours and minutes of a time. -/
def afterMinutes? (text : List Char) : Option (List Char) := do
  let (_, text) ← field? 2 0 23 text
  let (_, text) ← field? 2 0 59 (← after? ':' text)
  return text

/-- What follows a time; the seconds may be left out. -/
def afterTime? (text : List Char) : Option (List Char) := do
  let text ← afterMinutes? text
  match text with
  | ':' :: seconds =>
    let (_, text) ← field? 2 0 60 seconds
    match text with
    | '.' :: fraction => (Decimal.digits? fraction).map Prod.snd
    | text => some text
  | text => some text

/-- Whether a text is an offset from universal time or nothing. -/
def isOffset : List Char → Bool
  | [] | ['Z'] | ['z'] => true
  | c :: rest => (c == '+' || c == '-') && afterMinutes? rest == some []

/-- Whether a word is a date, a time, or both. -/
def isDateTime (word : List Char) : Bool :=
  match afterDate? word with
  | some [] => true
  | some (c :: rest) => (c == 'T' || c == 't' || c == ' ') && (afterTime? rest).any isOffset
  | none => afterTime? word == some []

/-- The characters of the words that are no strings. -/
def isWordChar (c : Char) : Bool :=
  c.isAlphanum || c == '_' || c == '+' || c == '-' || c == '.' || c == ':'

/-- The word at the start of a text, and what follows it. A blank may stand between a date and a
time. -/
def word (text : List Char) : List Char × List Char :=
  let first := text.takeWhile isWordChar
  match text.dropWhile isWordChar with
  | ' ' :: d :: rest =>
    if d.isDigit ∧ afterDate? first = some [] then
      (first ++ ' ' :: (d :: rest).takeWhile isWordChar, (d :: rest).dropWhile isWordChar)
    else (first, ' ' :: d :: rest)
  | rest => (first, rest)

end ZodModules.Toml
