/-!
# Digits

The values of runs of decimal and hexadecimal digits, and the characters with a given code.
-/

namespace ZodModules.Text

/-- The value of a run of decimal digits; zero for no digits. -/
def decimalValue (digits : List Char) : Nat :=
  digits.foldl (fun n d => 10 * n + (d.toNat - 48)) 0

/-- The value of a hexadecimal digit in either case. -/
def hexValue? (c : Char) : Option Nat :=
  if c.isDigit then some (c.toNat - 48)
  else if 'a' ≤ c ∧ c ≤ 'f' then some (c.toNat - 87)
  else if 'A' ≤ c ∧ c ≤ 'F' then some (c.toNat - 55)
  else none

/-- The value of a digit of a base of at most sixteen. -/
def digitValue? (base : Nat) (c : Char) : Option Nat := (hexValue? c).filter (· < base)

/-- The value of a run of digits of a base of at most sixteen; there is at least one digit. -/
def digitsValue? (base : Nat) (digits : List Char) : Option Nat :=
  if digits.isEmpty then none
  else digits.foldlM (fun n c => (digitValue? base c).map (base * n + ·)) 0

/-- The character with a code; surrogates and codes beyond the last character are refused. -/
def charOfCode? (code : Nat) : Option Char :=
  if h : code.isValidChar then some (Char.ofNatAux code h) else none

theorem digitValue?_lt {base value : Nat} {c : Char} (h : digitValue? base c = some value) :
    value < base :=
  of_decide_eq_true (Option.filter_eq_some_iff.1 h).2

end ZodModules.Text
