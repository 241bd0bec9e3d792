import ZodModules.Json.Basic
import ZodModules.Decimal.Reading
import ZodModules.Decimal.Shortest
import ZodModules.Text.Quoted

/-!
# JSON tokens

The words, strings and punctuation of JSON text. `Token.chars` writes a token and `Token.scan`
reads a text into tokens; blanks between tokens carry no meaning.
-/

namespace ZodModules.Json

/-- A lexical unit of JSON text. -/
inductive Token where
  | openArray
  | closeArray
  | openObject
  | closeObject
  | comma
  | colon
  | null
  | bool (value : Bool)
  | number (value : Number)
  | string (value : String)
deriving DecidableEq

namespace Number

/-- Floats are written positionally from `0.00001` up to below `1e+16`, always with a fraction, and
with an exponent that shows its sign elsewhere. Of two equally near decimals the even one is taken. -/
def layout : DecimalLayout where
  tie := .toEven
  positional e := -5 ≤ e && e < 16
  integralEnd := ".0"
  signedZero := true

/-- The text of a number. -/
def text : Number → String
  | .integer n => toString n
  | .float x => layout.print x

/-- The digits after a decimal point, none if the text has no point. -/
def fraction? : List Char → Option (List Char × List Char)
  | '.' :: rest => Decimal.digits? rest
  | rest => some ([], rest)

/-- Reads the text of a number without its sign. A decimal stands for the nearest binary64 number,
however many digits it has. A reader that only computes with the leading digits in binary64 itself
may come to a neighbour of that for a decimal of more than 15 digits or with a large exponent; that
a float which has been written is read back as it was rests on the nearest number being taken. -/
def unsigned? (negative : Bool) (text : List Char) : Option Number :=
  match Decimal.digits? text with
  | none => none
  | some (whole, rest) =>
    if whole.length ≠ 1 ∧ whole.head? = some '0' then none
    else if rest.isEmpty then
      let value : Int := if negative then -Text.decimalValue whole else Text.decimalValue whole
      if Number.isExact value && !(negative && value == 0) then some (.integer value)
      else (Binary64.ofDecimal negative (Text.decimalValue whole) 0).map .float
    else
      match fraction? rest with
      | none => none
      | some (decimals, rest) =>
        match Decimal.exponent? rest with
        | none => none
        | some power =>
          (Binary64.ofDecimal negative (Text.decimalValue (whole ++ decimals))
            (power - decimals.length)).map .float

/-- Reads the text of a number; one too large for binary64 is refused. -/
def ofChars? : List Char → Option Number
  | '-' :: rest => unsigned? true rest
  | text => unsigned? false text

end Number

namespace Token

/-- The text of a token. -/
def text : Token → String
  | .openArray => "["
  | .closeArray => "]"
  | .openObject => r"{"
  | .closeObject => r"}"
  | .comma => ","
  | .colon => ":"
  | .null => "null"
  | .bool true => "true"
  | .bool false => "false"
  | .number n => n.text
  | .string s => quote s

/-- Reads a run of letters, digits, signs and points. -/
def ofWord? (word : List Char) : Option Token :=
  if word = ['n', 'u', 'l', 'l'] then some .null
  else if word = ['t', 'r', 'u', 'e'] then some (.bool true)
  else if word = ['f', 'a', 'l', 's', 'e'] then some (.bool false)
  else (Number.ofChars? word).map .number

/-- The characters of the literals and of numbers. -/
def isWordChar (c : Char) : Bool := c.isAlphanum || c == '-' || c == '+' || c == '.'

/-- The blanks between tokens. -/
def isBlank (c : Char) : Bool := c == ' ' || c == '\t' || c == '\n' || c == '\r'

/-- The token that an unfinished part of a text belongs to, with the part read so far, last
character first. -/
inductive Pending where
  | nothing
  | word (read : List Char)
  | string (read : List Char)

/-- What a character that stands between tokens begins and completes. -/
def start? (c : Char) : Option (Pending × List Token) :=
  if c = '[' then some (.nothing, [.openArray])
  else if c = ']' then some (.nothing, [.closeArray])
  else if c = '{' then some (.nothing, [.openObject])
  else if c = '}' then some (.nothing, [.closeObject])
  else if c = ',' then some (.nothing, [.comma])
  else if c = ':' then some (.nothing, [.colon])
  else if c = '"' then some (.string [], [])
  else if isWordChar c then some (.word [c], [])
  else if isBlank c then some (.nothing, [])
  else none

/-- The character of a one-letter escape. -/
def simpleEscape? (c : Char) : Option Char :=
  if c = '"' ∨ c = '\\' ∨ c = '/' then some c
  else if c = 'n' then some '\n'
  else if c = 'r' then some '\r'
  else if c = 't' then some '\t'
  else if c = 'b' then some '\x08'
  else if c = 'f' then some '\x0c'
  else none

/-- The character that two UTF-16 units, a high and a low surrogate, stand for. -/
def ofSurrogates? (high low : Nat) : Option Char :=
  if 0xDC00 ≤ low ∧ low < 0xE000 then
    some (Char.ofNat (0x10000 + (high - 0xD800) * 0x400 + (low - 0xDC00)))
  else none

/-- Reads a text into tokens, beginning inside the pending one. An escape of a lone surrogate and a
raw control character in a string are refused. -/
def scan : Pending → List Char → Option (List Token)
  | .nothing, [] => some []
  | .word read, [] => (ofWord? read.reverse).map ([·])
  | .string _, [] => none
  | .nothing, c :: rest =>
    match start? c with
    | some (pending, tokens) => (scan pending rest).map (tokens ++ ·)
    | none => none
  | .word read, c :: rest =>
    if isWordChar c then scan (.word (c :: read)) rest
    else
      match ofWord? read.reverse, start? c with
      | some token, some (pending, tokens) => (scan pending rest).map (token :: tokens ++ ·)
      | _, _ => none
  | .string read, '"' :: rest =>
    (scan .nothing rest).map (.string (String.ofList read.reverse) :: ·)
  | .string read, '\\' :: 'u' :: a :: b :: c :: d :: rest =>
    match Text.digitsValue? 16 [a, b, c, d] with
    | none => none
    | some unit =>
      if 0xD800 ≤ unit ∧ unit < 0xDC00 then
        match rest with
        | '\\' :: 'u' :: a' :: b' :: c' :: d' :: rest =>
          match (Text.digitsValue? 16 [a', b', c', d']).bind (ofSurrogates? unit) with
          | some char => scan (.string (char :: read)) rest
          | none => none
        | _ => none
      else if 0xDC00 ≤ unit ∧ unit < 0xE000 then none
      else scan (.string (Char.ofNat unit :: read)) rest
  | .string read, '\\' :: c :: rest =>
    match simpleEscape? c with
    | some char => scan (.string (char :: read)) rest
    | none => none
  | .string read, c :: rest =>
    if c.toNat < 32 ∨ c = '\\' then none else scan (.string (c :: read)) rest

end Token

/-- The tokens of a text. -/
def tokens? (text : String) : Option (List Token) := Token.scan .nothing text.toList

end ZodModules.Json
