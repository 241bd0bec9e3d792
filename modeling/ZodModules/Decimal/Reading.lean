import ZodModules.Decimal.Binary64
import ZodModules.Text.Digits

/-!
# Reading decimal numbers

The parts of the text of a decimal number, and the binary64 number nearest to it.
-/

namespace ZodModules.Decimal

/-- A non-empty run of decimal digits at the start of a text, and what follows it. -/
def digits? (text : List Char) : Option (List Char × List Char) :=
  match text.takeWhile Char.isDigit with
  | [] => none
  | digits => some (digits, text.dropWhile Char.isDigit)

/-- Whether a minus stands first, and the text after a sign. -/
def splitSign : List Char → Bool × List Char
  | '-' :: rest => (true, rest)
  | '+' :: rest => (false, rest)
  | rest => (false, rest)

/-- The value of an exponent part that ends the text, zero if there is none. -/
def exponent? : List Char → Option Int
  | [] => some 0
  | e :: rest =>
    if e = 'e' ∨ e = 'E' then
      let (negative, rest) := splitSign rest
      match digits? rest with
      | some (digits, []) =>
        some (if negative then -Text.decimalValue digits else Text.decimalValue digits)
      | _ => none
    else none

/-- The finite number nearest to a text, which has digits on at least one side of its point. -/
def binary64? (text : List Char) : Option Binary64 :=
  let (negative, rest) := splitSign text
  let (whole, rest) := (rest.takeWhile Char.isDigit, rest.dropWhile Char.isDigit)
  let (decimals, rest) := match rest with
    | '.' :: rest => (rest.takeWhile Char.isDigit, rest.dropWhile Char.isDigit)
    | rest => ([], rest)
  if whole.isEmpty ∧ decimals.isEmpty then none
  else
    (exponent? rest).bind fun power =>
      Binary64.ofDecimal negative (Text.decimalValue (whole ++ decimals)) (power - decimals.length)

end ZodModules.Decimal
