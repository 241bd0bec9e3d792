import ZodModules.Decimal.Shortest
import ZodModules.Proofs.Decimal.Rounding

/-!
# Shortest texts read back

The decimal that is found for a number is among those that are rounded to it: a grid is found at the
latest when its step is less than a half of the number's last place, and that is so after seventeen
digits.
-/

namespace ZodModules.Binary64

variable {x : Binary64} {tie : Tie} {power : ℤ} {digits : Nat}

/-- The factor by which bounds in quarters of the last place are scaled to a grid. -/
def gridScale (x : Binary64) (power : ℤ) : Nat :=
  Nat.pow 2 (x.exponent - 2).toNat * Nat.pow 10 (-power).toNat

/-- The step of a grid, scaled. -/
def gridStep (x : Binary64) (power : ℤ) : Nat :=
  Nat.pow 10 power.toNat * Nat.pow 2 (-(x.exponent - 2)).toNat

/-- Whether a decimal reads back to a number. -/
def readsBack (x : Binary64) (power : ℤ) (digits : Nat) : Bool :=
  let low := (4 * x.significand - x.below) * x.gridScale power
  let high := (4 * x.significand + 2) * x.gridScale power
  if x.significand % 2 = 0 then low ≤ digits * x.gridStep power && digits * x.gridStep power ≤ high
  else low < digits * x.gridStep power && digits * x.gridStep power < high

/-- The decimal of a grid that is nearest to a number. -/
def nearestDigits (tie : Tie) (x : Binary64) (power : ℤ) : Nat :=
  roundQuotient tie (4 * x.significand * x.gridScale power) (x.gridStep power)

/-- The decimal of a grid on the other side of a number. -/
def otherDigits (tie : Tie) (x : Binary64) (power : ℤ) : Nat :=
  let down := 4 * x.significand * x.gridScale power / x.gridStep power
  if nearestDigits tie x power = down then down + 1 else down

theorem nearestOnGrid?_eq (tie : Tie) (x : Binary64) (power : ℤ) :
    nearestOnGrid? tie x power =
      if x.readsBack power (nearestDigits tie x power) then some (nearestDigits tie x power)
      else if x.readsBack power (otherDigits tie x power) then some (otherDigits tie x power)
      else none := rfl

/-- What scale and step have in common. -/
def gridUnit (x : Binary64) (power : ℤ) : ℚ := 10 ^ (-power).toNat * 2 ^ (-(x.exponent - 2)).toNat

theorem gridUnit_pos : 0 < x.gridUnit power := by
  unfold gridUnit
  positivity

theorem gridScale_eq : (x.gridScale power : ℚ) = x.quarter * x.gridUnit power := by
  rw [quarter, ← pow_toNat_div two_ne_zero, gridScale, gridUnit]
  push_cast [Nat.pow_eq]
  field_simp

theorem gridStep_eq : (x.gridStep power : ℚ) = 10 ^ power * x.gridUnit power := by
  rw [← pow_toNat_div (by norm_num) power, gridStep, gridUnit]
  push_cast [Nat.pow_eq]
  field_simp

/-- A decimal reads back exactly to the numbers that cover it. -/
theorem readsBack_iff (nonzero : x.significand ≠ 0) :
    x.readsBack power digits ↔ x.Covers (digits * 10 ^ power) := by
  have unit : 0 < x.gridUnit power := gridUnit_pos
  have near : x.below ≤ 4 * x.significand := by
    have := x.below_le_two
    omega
  have scaled (n : Nat) : ((n * x.gridScale power : Nat) : ℚ) =
      n * x.quarter * x.gridUnit power := by
    rw [Nat.cast_mul, gridScale_eq, mul_assoc]
  have stepped : ((digits * x.gridStep power : Nat) : ℚ) =
      digits * 10 ^ power * x.gridUnit power := by
    rw [Nat.cast_mul, gridStep_eq, mul_assoc]
  have le_iff (n m : Nat) : n ≤ m ↔ (n : ℚ) ≤ m := Nat.cast_le.symm
  have lt_iff (n m : Nat) : n < m ↔ (n : ℚ) < m := Nat.cast_lt.symm
  unfold readsBack
  dsimp only
  split
  · rename_i even
    rw [Bool.and_eq_true, decide_eq_true_iff, decide_eq_true_iff, le_iff, le_iff, scaled, scaled,
      stepped, mul_le_mul_iff_left₀ unit, mul_le_mul_iff_left₀ unit]
    push_cast [near]
    exact ⟨fun h => ⟨h.1, h.2, fun odd => by omega⟩, fun h => ⟨h.low, h.high⟩⟩
  · rename_i odd
    rw [Bool.and_eq_true, decide_eq_true_iff, decide_eq_true_iff, lt_iff, lt_iff, scaled, scaled,
      stepped, mul_lt_mul_iff_left₀ unit, mul_lt_mul_iff_left₀ unit]
    push_cast [near]
    exact ⟨fun h => ⟨h.1.le, h.2.le, fun _ => h⟩, fun h => h.inside (by omega)⟩

theorem covers_of_nearestOnGrid? (nonzero : x.significand ≠ 0)
    (found : nearestOnGrid? tie x power = some digits) : x.Covers (digits * 10 ^ power) := by
  rw [nearestOnGrid?_eq] at found
  split at found
  · cases found
    exact (readsBack_iff nonzero).1 ‹_›
  · split at found
    · cases found
      exact (readsBack_iff nonzero).1 ‹_›
    · cases found

/-- A rounded quotient is within a half. -/
theorem roundQuotient_near (tie : Tie) (num : Nat) {den : Nat} (positive : 0 < den) :
    2 * num ≤ 2 * (roundQuotient tie num den * den) + den ∧
      2 * (roundQuotient tie num den * den) ≤ 2 * num + den := by
  have split := Nat.div_add_mod' num den
  have rest := Nat.mod_lt num positive
  unfold roundQuotient
  generalize num / den = quotient at *
  generalize num % den = remainder at *
  have next : (quotient + 1) * den = quotient * den + den := Nat.succ_mul ..
  have even : (quotient + quotient % 2) * den = quotient * den ∨
      (quotient + quotient % 2) * den = quotient * den + den := by
    rcases Nat.mod_two_eq_zero_or_one quotient with parity | parity
    · exact .inl (by rw [parity, Nat.add_zero])
    · exact .inr (by rw [parity, next])
  dsimp only
  split
  · omega
  · split
    · omega
    · cases tie with
      | toEven => rcases even with same | up <;> dsimp only <;> omega
      | up => dsimp only; omega

/-- The nearest decimal of a grid is at most half a step away. -/
theorem nearestDigits_near (tie : Tie) (x : Binary64) (power : ℤ) :
    2 * (4 * x.significand * x.quarter) ≤ 2 * (nearestDigits tie x power * 10 ^ power) + 10 ^ power ∧
      2 * (nearestDigits tie x power * (10 : ℚ) ^ power) ≤
        2 * (4 * x.significand * x.quarter) + 10 ^ power := by
  have unit : 0 < x.gridUnit power := gridUnit_pos
  have step : 0 < x.gridStep power := by
    have positive : (0 : ℚ) < 10 ^ power * x.gridUnit power :=
      mul_pos (zpow_pos (by norm_num) power) unit
    rw [← gridStep_eq] at positive
    exact_mod_cast positive
  obtain ⟨above, under⟩ := roundQuotient_near tie (4 * x.significand * x.gridScale power) step
  change 2 * _ ≤ 2 * (nearestDigits tie x power * x.gridStep power) + _ at above
  change 2 * (nearestDigits tie x power * x.gridStep power) ≤ _ at under
  have above' := (Nat.cast_le (α := ℚ)).2 above
  have under' := (Nat.cast_le (α := ℚ)).2 under
  push_cast [gridScale_eq, gridStep_eq] at above' under'
  constructor
  · refine le_of_mul_le_mul_right ?_ unit
    linarith
  · refine le_of_mul_le_mul_right ?_ unit
    linarith

/-- A grid whose step is less than half of the last place has a decimal that reads back. -/
theorem isSome_nearestOnGrid? (nonzero : x.significand ≠ 0)
    (fine : (10 : ℚ) ^ power < 2 ^ (x.exponent - 1)) : (nearestOnGrid? tie x power).isSome := by
  rw [x.two_zpow_of_quarters 1 (by push_cast; ring), pow_one] at fine
  -- The nearest decimal is off by less than a quarter of the last place.
  have covers : x.Covers (nearestDigits tie x power * 10 ^ power) := by
    obtain ⟨above, under⟩ := nearestDigits_near tie x power
    have near := mul_le_mul_of_nonneg_right (show (1 : ℚ) ≤ x.below by exact_mod_cast x.one_le_below)
      x.quarter_pos.le
    have strict : (4 * x.significand - x.below) * x.quarter <
          (nearestDigits tie x power * 10 ^ power : ℚ) ∧
        (nearestDigits tie x power * 10 ^ power : ℚ) < (4 * x.significand + 2) * x.quarter := by
      constructor <;> linarith
    exact ⟨strict.1.le, strict.2.le, fun _ => strict⟩
  rw [nearestOnGrid?_eq, if_pos ((readsBack_iff nonzero).2 covers)]
  rfl

/-- A power of ten is at most this power of two. -/
theorem ten_pow_le (n : Nat) : (10 : ℚ) ^ n ≤ 2 ^ (10 * (n / 3) + 4 * (n % 3)) := by
  calc (10 : ℚ) ^ n = (10 ^ 3) ^ (n / 3) * 10 ^ (n % 3) := by
        rw [← pow_mul, ← pow_add, Nat.div_add_mod]
    _ ≤ (2 ^ 10) ^ (n / 3) * (2 ^ 4) ^ (n % 3) := by
        gcongr <;> norm_num
    _ = 2 ^ (10 * (n / 3) + 4 * (n % 3)) := by rw [← pow_mul, ← pow_mul, ← pow_add]

/-- A power of ten is at least this power of two. -/
theorem le_ten_pow (n : Nat) : (2 : ℚ) ^ (93 * (n / 28) + 3 * (n % 28)) ≤ 10 ^ n := by
  calc (2 : ℚ) ^ (93 * (n / 28) + 3 * (n % 28)) = (2 ^ 93) ^ (n / 28) * (2 ^ 3) ^ (n % 28) := by
        rw [← pow_mul, ← pow_mul, ← pow_add]
    _ ≤ (10 ^ 28) ^ (n / 28) * 10 ^ (n % 28) := by
        gcongr <;> norm_num
    _ = 10 ^ n := by rw [← pow_mul, ← pow_add, Nat.div_add_mod]

/-- Grids are fine enough some places below the leading digit: the factor is just above the
logarithm of two. -/
theorem ten_zpow_lt {bits : ℤ} (least : -1074 ≤ bits) (greatest : bits ≤ 1023) :
    (10 : ℚ) ^ (bits * 30103 / 100000 - 21) < 2 ^ (bits - 53) := by
  generalize exponent_eq : bits * 30103 / 100000 - 21 = exponent
  rcases Int.eq_nat_or_neg exponent with ⟨n, rfl | rfl⟩
  · rw [zpow_natCast]
    calc (10 : ℚ) ^ n ≤ 2 ^ (10 * (n / 3) + 4 * (n % 3)) := ten_pow_le n
      _ = 2 ^ ((10 * (n / 3) + 4 * (n % 3) : ℕ) : ℤ) := (zpow_natCast ..).symm
      _ < 2 ^ (bits - 53) := zpow_lt_zpow_right₀ one_lt_two (by omega)
  · rw [zpow_neg, zpow_natCast]
    calc ((10 : ℚ) ^ n)⁻¹ ≤ (2 ^ (93 * (n / 28) + 3 * (n % 28)))⁻¹ :=
          inv_anti₀ (by positivity) (le_ten_pow n)
      _ = 2 ^ (-((93 * (n / 28) + 3 * (n % 28) : ℕ) : ℤ)) := by rw [zpow_neg, zpow_natCast]
      _ < 2 ^ (bits - 53) := zpow_lt_zpow_right₀ one_lt_two (by omega)

/-- The shortest decimal of a number reads back to it. -/
theorem covers_shortest (tie : Tie) (nonzero : x.significand ≠ 0) :
    x.Covers ((x.shortest tie).1 * 10 ^ (x.shortest tie).2) := by
  let bits : ℤ := x.significand.log2 + x.exponent
  let onGrid (k : Nat) := (nearestOnGrid? tie x (bits * 30103 / 100000 + 2 - k)).map fun digits =>
    (digits, bits * 30103 / 100000 + 2 - k)
  obtain ⟨size, least, greatest, -⟩ := x.canonical
  have length : x.significand.log2 ≤ 52 := by
    have := (Nat.log2_lt nonzero).2 size
    omega
  have fine : (10 : ℚ) ^ (bits * 30103 / 100000 + 2 - (23 : ℕ)) < 2 ^ (x.exponent - 1) := by
    calc (10 : ℚ) ^ (bits * 30103 / 100000 + 2 - (23 : ℕ))
        = 10 ^ (bits * 30103 / 100000 - 21) := by
          congr 1
          push_cast
          ring
      _ < 2 ^ (bits - 53) := ten_zpow_lt (by omega) (by omega)
      _ ≤ 2 ^ (x.exponent - 1) := zpow_le_zpow_right₀ one_le_two (by omega)
  have last : (onGrid 23).isSome := by
    rw [Option.isSome_map]
    exact isSome_nearestOnGrid? nonzero fine
  have hit : ((List.range 24).findSome? onGrid).isSome :=
    List.findSome?_isSome_iff.2 ⟨23, by decide, last⟩
  obtain ⟨decimal, found⟩ := Option.isSome_iff_exists.1 hit
  have result : x.shortest tie = decimal := by
    show ((List.range 24).findSome? onGrid).getD (0, 0) = decimal
    rw [found, Option.getD_some]
  obtain ⟨k, -, accepted⟩ := List.exists_of_findSome?_eq_some found
  obtain ⟨digits, near, rfl⟩ := Option.map_eq_some_iff.1 accepted
  rw [result]
  exact covers_of_nearestOnGrid? nonzero near

end ZodModules.Binary64
