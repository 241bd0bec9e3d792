/-!
# Regular expressions between slashes

How a pattern is written as a regular expression literal. A slash gets a backslash, a line
terminator becomes its escape, and a backslash with nothing after it becomes an escaped one, so the
literal ends where it should and stays on its line. What has a backslash already keeps it.
-/

namespace ZodModules.Regex

/-- The escape of a line terminator, without its backslash. -/
def terminator? (c : Char) : Option (List Char) :=
  if c = '\n' then some ['n']
  else if c = '\r' then some ['r']
  else if c = '\u2028' then some ['u', '2', '0', '2', '8']
  else if c = '\u2029' then some ['u', '2', '0', '2', '9']
  else none

/-- What stands for a character after a backslash. -/
def afterBackslash (c : Char) : List Char := (terminator? c).getD [c]

/-- What stands for a character that no backslash precedes. -/
def plain (c : Char) : List Char :=
  match terminator? c with
  | some escape => '\\' :: escape
  | none => if c = '/' then ['\\', '/'] else [c]

/-- The pattern as it stands between the slashes. -/
def escape : List Char → List Char
  | [] => []
  | '\\' :: [] => ['\\', '\\']
  | '\\' :: c :: rest => '\\' :: afterBackslash c ++ escape rest
  | c :: rest => plain c ++ escape rest

end ZodModules.Regex
