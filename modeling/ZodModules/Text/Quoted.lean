/-!
# Quoted strings

The double-quoted form of a text that JSON and JavaScript share. Quotes, backslashes and the
control characters below the space are escaped, the latter with a letter where there is one;
every other character stands for itself.
-/

namespace ZodModules.Quoted

/-- The lower-case hexadecimal digit of a number below sixteen. -/
def hexDigit (n : Nat) : Char := (Nat.digitChar n)

/-- The form of one character inside quotes. -/
def escape (c : Char) : List Char :=
  if c = '"' then ['\\', '"']
  else if c = '\\' then ['\\', '\\']
  else if c = '\n' then ['\\', 'n']
  else if c = '\r' then ['\\', 'r']
  else if c = '\t' then ['\\', 't']
  else if c = '\x08' then ['\\', 'b']
  else if c = '\x0c' then ['\\', 'f']
  else if c.toNat < 32 then
    ['\\', 'u', '0', '0', hexDigit (c.toNat / 16), hexDigit (c.toNat % 16)]
  else [c]

/-- The quoted form of a list of characters. -/
def chars (text : List Char) : List Char := '"' :: text.flatMap escape ++ ['"']

end ZodModules.Quoted

namespace ZodModules

/-- The quoted form of a text. -/
def quote (text : String) : String := String.ofList (Quoted.chars text.toList)

end ZodModules
