/-!
# Finite binary64 numbers

A finite number of the binary64 format is a signed significand below `2 ^ 53` times a power of two.
`Binary64.ofRatio` and `Binary64.ofDecimal` round to the nearest such number, a tie going to the
even significand; a value that would need a larger exponent has no image.
-/

namespace ZodModules

/-- The significands and exponents of the format: each value has exactly one such pair. -/
def Binary64.Canonical (significand : Nat) (exponent : Int) : Prop :=
  significand < Nat.pow 2 53 ∧ -1074 ≤ exponent ∧ exponent ≤ 971 ∧
    (Nat.pow 2 52 ≤ significand ∨ exponent = -1074)

instance (significand : Nat) (exponent : Int) :
    Decidable (Binary64.Canonical significand exponent) :=
  inferInstanceAs (Decidable (_ ∧ _))

/-- The finite number `significand * 2 ^ exponent`, negated if `negative`; zero has two signs. -/
structure Binary64 where
  negative : Bool
  significand : Nat
  exponent : Int
  canonical : Binary64.Canonical significand exponent
deriving DecidableEq

namespace Binary64

/-- Zero of either sign. -/
def zero (negative : Bool) : Binary64 := ⟨negative, 0, -1074, by decide⟩

instance : Inhabited Binary64 := ⟨zero false⟩

/-- Which of two equally near numbers is taken. -/
inductive Tie where
  | toEven
  | up
deriving DecidableEq

/-- The quotient to the nearest natural number. -/
def roundQuotient (tie : Tie) (num den : Nat) : Nat :=
  let quotient := num / den
  let twice := 2 * (num % den)
  if twice < den then quotient
  else if den < twice then quotient + 1
  else
    match tie with
    | .toEven => quotient + quotient % 2
    | .up => quotient + 1

/-- The number nearest to `num / den`, for `num` and `den` positive; `none` on overflow. -/
def ofRatio (negative : Bool) (num den : Nat) : Option Binary64 :=
  let estimate : Int := (num.log2 : Int) - den.log2 - 53
  let scaled (exponent : Int) : Nat × Nat :=
    (num * Nat.pow 2 (-exponent).toNat, den * Nat.pow 2 exponent.toNat)
  let (a, b) := scaled estimate
  let exponent := max (if a / b < Nat.pow 2 53 then estimate else estimate + 1) (-1074)
  let (a, b) := scaled exponent
  let rounded := roundQuotient .toEven a b
  let (significand, exponent) :=
    if rounded = Nat.pow 2 53 then (Nat.pow 2 52, exponent + 1) else (rounded, exponent)
  if h : Canonical significand exponent then some ⟨negative, significand, exponent, h⟩ else none

/-- The number nearest to `digits * 10 ^ power`; `none` on overflow. -/
def ofDecimal (negative : Bool) (digits : Nat) (power : Int) : Option Binary64 :=
  let size : Int := (Nat.toDigits 10 digits).length
  if digits = 0 ∨ power + size < -400 then some (zero negative)
  else if 400 < power + size then none
  else ofRatio negative (digits * Nat.pow 10 power.toNat) (Nat.pow 10 (-power).toNat)

/-- The number nearest to an integer; `none` on overflow. -/
def ofInt (n : Int) : Option Binary64 := ofDecimal (decide (n < 0)) n.natAbs 0

end Binary64

end ZodModules
