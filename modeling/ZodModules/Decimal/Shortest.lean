import ZodModules.Decimal.Binary64

/-!
# Shortest decimal texts

`Binary64.shortest` finds the decimal with the fewest digits among those that read back to a given
number, and of these the nearest to it. A `DecimalLayout` says which of two equally near ones is taken
and how it is written.
-/

namespace ZodModules

namespace Binary64

/-- The decimal `digits * 10 ^ power` on the grid of step `10 ^ power` that is nearest to `x`, if
it reads back to `x`. The bounds are the midpoints between `x` and its neighbours, in quarters of
`x`'s last place; they read back to `x` only if its significand is even. -/
def nearestOnGrid? (tie : Tie) (x : Binary64) (power : Int) : Option Nat :=
  let quarters := x.exponent - 2
  let scale := Nat.pow 2 quarters.toNat * Nat.pow 10 (-power).toNat
  let step := Nat.pow 10 power.toNat * Nat.pow 2 (-quarters).toNat
  let value := 4 * x.significand * scale
  let below := if x.significand = Nat.pow 2 52 ∧ -1074 < x.exponent then 1 else 2
  let low := (4 * x.significand - below) * scale
  let high := (4 * x.significand + 2) * scale
  let readsBack (digits : Nat) : Bool :=
    if x.significand % 2 = 0 then low ≤ digits * step && digits * step ≤ high
    else low < digits * step && digits * step < high
  let down := value / step
  let nearest := roundQuotient tie value step
  let other := if nearest = down then down + 1 else down
  if readsBack nearest then some nearest else if readsBack other then some other else none

/-- The decimal `(digits, power)` with the fewest digits that reads back to `x`. Grids are tried
from coarse to fine, from one above the leading digit of `x`; seventeen digits always suffice. -/
def shortest (tie : Tie) (x : Binary64) : Nat × Int :=
  let bits : Int := x.significand.log2 + x.exponent
  let top : Int := bits * 30103 / 100000 + 2
  let onGrid (k : Nat) := (nearestOnGrid? tie x (top - k)).map fun digits => (digits, top - k)
  ((List.range 24).findSome? onGrid).getD (0, 0)

end Binary64

/-- How a decimal is written. -/
structure DecimalLayout where
  /-- Which of two shortest decimals that are equally near is written. -/
  tie : Binary64.Tie
  /-- Whether a decimal with first digit worth `10 ^ e` is written without an exponent. -/
  positional : Int → Bool
  /-- What follows an integral number written without an exponent. -/
  integralEnd : String
  /-- Whether a negative zero shows its sign. -/
  signedZero : Bool

namespace DecimalLayout

/-- The digits of a decimal without trailing zeros, and the power of ten of the last one. -/
def significantDigits (digits : Nat) (power : Int) : List Char × Int :=
  let text := Nat.toDigits 10 digits
  let kept := (text.reverse.dropWhile (· == '0')).reverse
  (kept, power + (text.length - kept.length : Nat))

/-- The text of `digits * 10 ^ power` for digits that do not end in zero. -/
def magnitude (layout : DecimalLayout) (digits : List Char) (power : Int) : String :=
  let first : Int := digits.length - 1 + power
  let text := String.ofList
  if layout.positional first then
    if 0 ≤ power then
      text (digits ++ List.replicate power.toNat '0') ++ layout.integralEnd
    else if 0 ≤ first then
      text (digits.take (first.toNat + 1)) ++ "." ++ text (digits.drop (first.toNat + 1))
    else
      "0." ++ text (List.replicate (-first - 1).toNat '0') ++ text digits
  else
    let fraction := digits.drop 1
    text (digits.take 1) ++ (if fraction.isEmpty then "" else "." ++ text fraction) ++
      "e" ++ (if first < 0 then "-" else "+") ++ toString first.natAbs

/-- The shortest text of a number that reads back to it. -/
def print (layout : DecimalLayout) (x : Binary64) : String :=
  if x.significand = 0 then
    (if x.negative && layout.signedZero then "-" else "") ++ "0" ++ layout.integralEnd
  else
    let (digits, power) := x.shortest layout.tie
    let (digits, power) := significantDigits digits power
    (if x.negative then "-" else "") ++ layout.magnitude digits power

end DecimalLayout

end ZodModules
