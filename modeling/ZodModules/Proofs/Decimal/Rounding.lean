import ZodModules.Decimal.Binary64
import Mathlib.Algebra.Order.Field.Power
import Mathlib.Tactic.FieldSimp
import Mathlib.Tactic.Linarith
import Mathlib.Tactic.NormNum
import Mathlib.Tactic.Positivity
import Mathlib.Tactic.Ring

/-!
# Rounding to binary64

A positive ratio that lies between the midpoints of a number and its neighbours is rounded to that
number, a midpoint if the number's significand is even.
-/

namespace ZodModules.Binary64

section Quotients

variable {num den n : Nat}

/-- A quotient within a half of a number is rounded to it, at just a half if the number is even. -/
theorem roundQuotient_eq (positive : 0 < den) (low : 2 * (n * den) ≤ 2 * num + den)
    (high : 2 * num ≤ 2 * (n * den) + den)
    (inside : n % 2 = 1 → 2 * (n * den) < 2 * num + den ∧ 2 * num < 2 * (n * den) + den) :
    roundQuotient .toEven num den = n := by
  have split := Nat.div_add_mod' num den
  have rest := Nat.mod_lt num positive
  unfold roundQuotient
  generalize num / den = quotient at *
  generalize num % den = remainder at *
  -- The number is the quotient or the one above it.
  have near : n = quotient ∨ n = quotient + 1 := by
    by_contra far
    rcases Nat.lt_or_ge n quotient with less | more
    · have := Nat.mul_le_mul_right den (Nat.succ_le_of_lt less)
      rw [Nat.succ_mul] at this
      omega
    · have := Nat.mul_le_mul_right den (show quotient + 2 ≤ n by omega)
      rw [Nat.add_mul] at this
      omega
  rcases near with rfl | rfl
  · grind
  · rw [Nat.add_mul] at *
    grind

theorem roundQuotient_of_ratio (positive : 0 < den) (low : (n : ℚ) - 1 / 2 ≤ num / den)
    (high : (num : ℚ) / den ≤ n + 1 / 2)
    (inside : n % 2 = 1 → (n : ℚ) - 1 / 2 < num / den ∧ (num : ℚ) / den < n + 1 / 2) :
    roundQuotient .toEven num den = n := by
  have positive' : (0 : ℚ) < den := by exact_mod_cast positive
  rw [le_div_iff₀ positive'] at low
  rw [div_le_iff₀ positive'] at high
  rw [lt_div_iff₀ positive', div_lt_iff₀ positive'] at inside
  refine roundQuotient_eq positive ?_ ?_ fun odd => ⟨?_, ?_⟩
  · exact_mod_cast (by linarith : (2 * (n * den) : ℚ) ≤ 2 * num + den)
  · exact_mod_cast (by linarith : (2 * num : ℚ) ≤ 2 * (n * den) + den)
  · have := (inside odd).1
    exact_mod_cast (by linarith : (2 * (n * den) : ℚ) < 2 * num + den)
  · have := (inside odd).2
    exact_mod_cast (by linarith : (2 * num : ℚ) < 2 * (n * den) + den)

end Quotients

/-- The power of a base with an exponent that is written as a quotient of powers. -/
theorem pow_toNat_div {base : ℚ} (nonzero : base ≠ 0) (exponent : ℤ) :
    base ^ exponent.toNat / base ^ (-exponent).toNat = base ^ exponent := by
  rw [← zpow_natCast, ← zpow_natCast, ← zpow_sub₀ nonzero]
  congr 1
  omega

/-- A ratio counted in units of a power of two. -/
theorem scaled_ratio (num den : Nat) (exponent : ℤ) :
    ((num * Nat.pow 2 (-exponent).toNat : Nat) : ℚ) / (den * Nat.pow 2 exponent.toNat : Nat) =
      num / den / 2 ^ exponent := by
  rw [← pow_toNat_div two_ne_zero exponent]
  push_cast [Nat.pow_eq]
  field_simp

section Units

variable {v : ℚ} {exponent exponent' : ℤ}

/-- The power of two that is worth the last place of a ratio with a significand of 53 bits. -/
def IsUnit (v : ℚ) (exponent : ℤ) : Prop := 2 ^ (exponent + 52) ≤ v ∧ v < 2 ^ (exponent + 53)

theorem IsUnit.unique (unit : IsUnit v exponent) (unit' : IsUnit v exponent') :
    exponent = exponent' := by
  have one := (zpow_lt_zpow_iff_right₀ one_lt_two).1 (unit.1.trans_lt unit'.2)
  have other := (zpow_lt_zpow_iff_right₀ one_lt_two).1 (unit'.1.trans_lt unit.2)
  omega

theorem zpow_two_add (exponent : ℤ) (n : Nat) : (2 : ℚ) ^ (exponent + n) = 2 ^ n * 2 ^ exponent := by
  rw [zpow_add₀ two_ne_zero, zpow_natCast, mul_comm]

/-- The unit of a ratio, found from the lengths of its terms. -/
def unitExponent (num den : Nat) : ℤ :=
  let estimate : ℤ := (num.log2 : ℤ) - den.log2 - 53
  if num * Nat.pow 2 (-estimate).toNat / (den * Nat.pow 2 estimate.toNat) < Nat.pow 2 53 then estimate
  else estimate + 1

theorem two_zpow_log2_le {n : Nat} (positive : 0 < n) : (2 : ℚ) ^ (n.log2 : ℤ) ≤ n := by
  rw [zpow_natCast]
  exact_mod_cast Nat.log2_self_le positive.ne'

theorem lt_two_zpow_log2 (n : Nat) : (n : ℚ) < 2 ^ ((n.log2 : ℤ) + 1) := by
  have := Nat.lt_log2_self (n := n)
  rw [zpow_add_one₀ two_ne_zero, zpow_natCast, ← pow_succ]
  exact_mod_cast this

/-- A ratio is between the quotients of the bounds of its terms. -/
theorem ratio_log2 {num den : Nat} (hnum : 0 < num) (hden : 0 < den) :
    (2 : ℚ) ^ ((num.log2 : ℤ) - den.log2 - 1) < num / den ∧
      (num : ℚ) / den < 2 ^ ((num.log2 : ℤ) - den.log2 + 1) := by
  have positive : (0 : ℚ) < den := by exact_mod_cast hden
  have split (a b : ℤ) : (2 : ℚ) ^ (a - b) = 2 ^ a / 2 ^ b := zpow_sub₀ two_ne_zero a b
  constructor
  · rw [show (num.log2 : ℤ) - den.log2 - 1 = num.log2 - (den.log2 + 1) by ring, split]
    calc (2 : ℚ) ^ (num.log2 : ℤ) / 2 ^ ((den.log2 : ℤ) + 1)
        < 2 ^ (num.log2 : ℤ) / den := by
          exact div_lt_div_of_pos_left (by positivity) positive (lt_two_zpow_log2 den)
      _ ≤ num / den := by
          exact div_le_div_of_nonneg_right (two_zpow_log2_le hnum) positive.le
  · rw [show (num.log2 : ℤ) - den.log2 + 1 = num.log2 + 1 - den.log2 by ring, split]
    calc (num : ℚ) / den < 2 ^ ((num.log2 : ℤ) + 1) / den := by
          exact div_lt_div_of_pos_right (lt_two_zpow_log2 num) positive
      _ ≤ 2 ^ ((num.log2 : ℤ) + 1) / 2 ^ (den.log2 : ℤ) := by
          exact div_le_div_of_nonneg_left (by positivity) (by positivity) (two_zpow_log2_le hden)

theorem isUnit_unitExponent {num den : Nat} (hnum : 0 < num) (hden : 0 < den) :
    IsUnit (num / den) (unitExponent num den) := by
  obtain ⟨low, high⟩ := ratio_log2 hnum hden
  unfold unitExponent
  generalize exponent_eq : (num.log2 : ℤ) - den.log2 - 53 = estimate
  rw [show (num.log2 : ℤ) - den.log2 - 1 = estimate + 52 by omega] at low
  rw [show (num.log2 : ℤ) - den.log2 + 1 = estimate + 1 + 53 by omega] at high
  have positive : 0 < den * Nat.pow 2 estimate.toNat := Nat.mul_pos hden (Nat.two_pow_pos _)
  have below_iff : num * Nat.pow 2 (-estimate).toNat / (den * Nat.pow 2 estimate.toNat) <
      Nat.pow 2 53 ↔ (num : ℚ) / den < 2 ^ (estimate + 53) := by
    rw [Nat.div_lt_iff_lt_mul positive, ← Nat.cast_lt (α := ℚ), Nat.cast_mul (Nat.pow 2 53),
      ← div_lt_iff₀ (by exact_mod_cast positive), scaled_ratio,
      div_lt_iff₀ (zpow_pos two_pos estimate), show (53 : ℤ) = (53 : ℕ) from rfl, zpow_two_add]
    norm_num
  by_cases under : num * Nat.pow 2 (-estimate).toNat / (den * Nat.pow 2 estimate.toNat) <
      Nat.pow 2 53
  · rw [if_pos under]
    exact ⟨low.le, below_iff.1 under⟩
  · rw [if_neg under]
    refine ⟨?_, high⟩
    rw [show estimate + 1 + 52 = estimate + 53 by ring]
    exact not_lt.1 (mt below_iff.2 under)

end Units

section Covering

variable {x : Binary64} {num den : Nat} {v : ℚ}

/-- How far the midpoint below a number is from it, in quarters of its last place: the numbers below
a power of two are nearer to each other. -/
def below (x : Binary64) : Nat := if x.significand = Nat.pow 2 52 ∧ -1074 < x.exponent then 1 else 2

theorem below_le_two (x : Binary64) : x.below ≤ 2 := by
  unfold below
  split <;> omega

theorem one_le_below (x : Binary64) : 1 ≤ x.below := by
  unfold below
  split <;> omega

/-- A quarter of the last place of a number. -/
def quarter (x : Binary64) : ℚ := 2 ^ (x.exponent - 2)

theorem quarter_pos (x : Binary64) : 0 < x.quarter := zpow_pos two_pos _

/-- Powers of two in quarters of the last place. -/
theorem two_zpow_of_quarters (x : Binary64) (n : Nat) {exponent : ℤ}
    (places : x.exponent - 2 + n = exponent) : (2 : ℚ) ^ exponent = 2 ^ n * x.quarter := by
  rw [← places, zpow_two_add, quarter]

/-- A ratio lies between the midpoints of a number and its neighbours, or is a midpoint and the
significand is even. -/
structure Covers (x : Binary64) (v : ℚ) : Prop where
  low : (4 * x.significand - x.below) * x.quarter ≤ v
  high : v ≤ (4 * x.significand + 2) * x.quarter
  inside : x.significand % 2 = 1 →
    (4 * x.significand - x.below) * x.quarter < v ∧ v < (4 * x.significand + 2) * x.quarter

/-- The midpoint below a number is at most a half of the last place away. -/
theorem low_half_le (x : Binary64) :
    (4 * x.significand - 2) * x.quarter ≤ (4 * x.significand - x.below) * x.quarter := by
  have near : (x.below : ℚ) ≤ 2 := by exact_mod_cast x.below_le_two
  exact mul_le_mul_of_nonneg_right (by linarith) x.quarter_pos.le

theorem Covers.low_half (covers : x.Covers v) : (4 * x.significand - 2) * x.quarter ≤ v :=
  x.low_half_le.trans covers.low

theorem significand_lt (x : Binary64) : (x.significand : ℚ) + 1 ≤ 2 ^ 53 := by
  have size := x.canonical.1
  exact_mod_cast Nat.succ_le_of_lt size

theorem ofRatio_of_parts {negative : Bool} {num den rounded : Nat} {exponent : ℤ}
    (exponent_eq : max (unitExponent num den) (-1074) = exponent)
    (rounds : roundQuotient .toEven (num * Nat.pow 2 (-exponent).toNat)
      (den * Nat.pow 2 exponent.toNat) = rounded) :
    ofRatio negative num den =
      let parts := if rounded = Nat.pow 2 53 then (Nat.pow 2 52, exponent + 1) else (rounded, exponent)
      if h : Canonical parts.1 parts.2 then some ⟨negative, parts.1, parts.2, h⟩ else none := by
  subst exponent_eq
  subst rounds
  rfl

/-- A ratio counted in units of a power of two rounds to a number within a half of it. -/
theorem roundQuotient_scaled {n : Nat} {exponent : ℤ} (hden : 0 < den)
    (low : ((n : ℚ) - 1 / 2) * 2 ^ exponent ≤ num / den)
    (high : (num : ℚ) / den ≤ (n + 1 / 2) * 2 ^ exponent)
    (inside : n % 2 = 1 → ((n : ℚ) - 1 / 2) * 2 ^ exponent < num / den ∧
      (num : ℚ) / den < (n + 1 / 2) * 2 ^ exponent) :
    roundQuotient .toEven (num * Nat.pow 2 (-exponent).toNat) (den * Nat.pow 2 exponent.toNat) =
      n := by
  have unit : (0 : ℚ) < 2 ^ exponent := zpow_pos two_pos exponent
  refine roundQuotient_of_ratio (Nat.mul_pos hden (Nat.two_pow_pos _)) ?_ ?_ fun odd => ⟨?_, ?_⟩
  · rwa [scaled_ratio, le_div_iff₀ unit]
  · rwa [scaled_ratio, div_le_iff₀ unit]
  · rw [scaled_ratio, lt_div_iff₀ unit]
    exact (inside odd).1
  · rw [scaled_ratio, div_lt_iff₀ unit]
    exact (inside odd).2

/-- Just below a power of two a ratio is rounded up to it from the finer grid there. -/
theorem ofRatio_of_covers_below (hnum : 0 < num) (hden : 0 < den) (covers : x.Covers (num / den))
    (power : x.significand = Nat.pow 2 52) (larger : -1074 < x.exponent)
    (less : (num : ℚ) / den < 2 ^ 54 * x.quarter) : ofRatio x.negative num den = some x := by
  have quarter := x.quarter_pos
  have low := covers.low
  have near : x.below = 1 := if_pos ⟨power, larger⟩
  rw [near, power] at low
  norm_num at low
  have finer : unitExponent num den = x.exponent - 1 := by
    refine (isUnit_unitExponent hnum hden).unique ⟨?_, ?_⟩
    · rw [x.two_zpow_of_quarters 53 (by push_cast; ring)]
      linarith
    · rw [x.two_zpow_of_quarters 54 (by push_cast; ring)]
      exact less
  have half : (2 : ℚ) ^ (x.exponent - 1) = 2 * x.quarter := by
    rw [x.two_zpow_of_quarters 1 (by push_cast; ring), pow_one]
  have rounds : roundQuotient .toEven (num * Nat.pow 2 (-(x.exponent - 1)).toNat)
      (den * Nat.pow 2 (x.exponent - 1).toNat) = Nat.pow 2 53 := by
    refine roundQuotient_scaled hden ?_ ?_ fun odd => absurd odd (by decide)
    · rw [half]
      norm_num
      linarith
    · rw [half]
      norm_num
      linarith
  obtain ⟨negative, m, e, canonical⟩ := x
  subst power
  rw [ofRatio_of_parts (by omega) rounds, if_pos rfl]
  simp [canonical]

/-- Elsewhere a ratio that a number covers is rounded on the number's own grid. -/
theorem max_unitExponent_of_covers (hnum : 0 < num) (hden : 0 < den) (covers : x.Covers (num / den))
    (whole : ¬ ((x.significand = Nat.pow 2 52 ∧ -1074 < x.exponent) ∧
      (num : ℚ) / den < 2 ^ 54 * x.quarter)) :
    max (unitExponent num den) (-1074) = x.exponent := by
  have unit := isUnit_unitExponent hnum hden
  have quarter := x.quarter_pos
  have least := x.canonical.2.1
  have size := x.significand_lt
  rcases le_or_gt (2 ^ 54 * x.quarter) (num / den : ℚ) with more | less
  · have same : unitExponent num den = x.exponent := by
      refine unit.unique ⟨?_, ?_⟩
      · rwa [x.two_zpow_of_quarters 54 (by push_cast; ring)]
      · rw [x.two_zpow_of_quarters 55 (by push_cast; ring)]
        calc (num : ℚ) / den ≤ (4 * x.significand + 2) * x.quarter := covers.high
          _ < 2 ^ 55 * x.quarter := mul_lt_mul_of_pos_right (by linarith) quarter
    omega
  · have lowest : x.exponent = -1074 := by
      by_contra larger
      have large : Nat.pow 2 52 ≤ x.significand := x.canonical.2.2.2.resolve_right larger
      have other : x.significand ≠ Nat.pow 2 52 := fun power => whole ⟨⟨power, by omega⟩, less⟩
      have above : (2 : ℚ) ^ 52 + 1 ≤ x.significand := by
        exact_mod_cast Nat.lt_of_le_of_ne large other.symm
      have beyond : 2 ^ 54 * x.quarter ≤ (4 * x.significand - 2) * x.quarter :=
        mul_le_mul_of_nonneg_right (by linarith) quarter.le
      exact absurd (beyond.trans covers.low_half) (not_le.2 less)
    have under : (2 : ℚ) ^ (unitExponent num den + 52) < 2 ^ (x.exponent + 52) := by
      have places := x.two_zpow_of_quarters 54 (show _ = x.exponent + 52 by push_cast; ring)
      rw [places]
      exact unit.1.trans_lt less
    have := (zpow_lt_zpow_iff_right₀ one_lt_two).1 under
    omega

/-- A ratio that a number covers is rounded to it. -/
theorem ofRatio_of_covers (hnum : 0 < num) (hden : 0 < den) (covers : x.Covers (num / den)) :
    ofRatio x.negative num den = some x := by
  by_cases finer : (x.significand = Nat.pow 2 52 ∧ -1074 < x.exponent) ∧
      (num : ℚ) / den < 2 ^ 54 * x.quarter
  · exact ofRatio_of_covers_below hnum hden covers finer.1.1 finer.1.2 finer.2
  · have exponent_eq := max_unitExponent_of_covers hnum hden covers finer
    have low := covers.low_half
    have high := covers.high
    have unit : (2 : ℚ) ^ x.exponent = 2 ^ 2 * x.quarter :=
      x.two_zpow_of_quarters 2 (by push_cast; ring)
    have rounds : roundQuotient .toEven (num * Nat.pow 2 (-x.exponent).toNat)
        (den * Nat.pow 2 x.exponent.toNat) = x.significand := by
      refine roundQuotient_scaled hden ?_ ?_ fun odd => ⟨?_, ?_⟩
      · rw [unit]
        linarith
      · rw [unit]
        linarith
      · have strict := x.low_half_le.trans_lt (covers.inside odd).1
        rw [unit]
        linarith
      · have strict := (covers.inside odd).2
        rw [unit]
        linarith
    rw [ofRatio_of_parts exponent_eq rounds, if_neg (Nat.ne_of_lt x.canonical.1)]
    exact dif_pos x.canonical

theorem eq_zero_of_significand {x : Binary64} (zero : x.significand = 0) :
    x = .zero x.negative := by
  obtain ⟨negative, m, e, size, least, greatest, normal⟩ := x
  cases zero
  cases normal.resolve_left (by decide)
  rfl

/-- What a positive number covers is in the range of the format. -/
theorem Covers.range (covers : x.Covers v) (nonzero : x.significand ≠ 0) :
    (2 : ℚ) ^ (-1075 : ℤ) ≤ v ∧ v < 2 ^ (1024 : ℤ) := by
  obtain ⟨-, least, greatest, -⟩ := x.canonical
  constructor
  · have one : (1 : ℚ) ≤ x.significand := by exact_mod_cast Nat.pos_of_ne_zero nonzero
    calc (2 : ℚ) ^ (-1075 : ℤ) ≤ 2 ^ (x.exponent - 1) := zpow_le_zpow_right₀ one_le_two (by omega)
      _ = 2 * x.quarter := by rw [x.two_zpow_of_quarters 1 (by push_cast; ring), pow_one]
      _ ≤ (4 * x.significand - 2) * x.quarter :=
        mul_le_mul_of_nonneg_right (by linarith) x.quarter_pos.le
      _ ≤ v := covers.low_half
  · have most := x.significand_lt
    calc v ≤ (4 * x.significand + 2) * x.quarter := covers.high
      _ < 2 ^ 55 * x.quarter := mul_lt_mul_of_pos_right (by linarith) x.quarter_pos
      _ = 2 ^ (x.exponent + 53) := (x.two_zpow_of_quarters 55 (by push_cast; ring)).symm
      _ ≤ 2 ^ (1024 : ℤ) := zpow_le_zpow_right₀ one_le_two (by omega)

/-- A positive number covers no decimal without digits. -/
theorem Covers.digits_pos {digits : Nat} {power : ℤ}
    (covers : x.Covers (digits * 10 ^ power)) (nonzero : x.significand ≠ 0) : 0 < digits := by
  rcases Nat.eq_zero_or_pos digits with rfl | positive
  · have least := (covers.range nonzero).1
    rw [Nat.cast_zero, zero_mul] at least
    exact absurd least (not_le.2 (zpow_pos two_pos _))
  · exact positive

end Covering

/-- A number of decimal digits is between powers of ten. -/
theorem toDigits_bounds {digits : Nat} (positive : 0 < digits) :
    (10 : ℚ) ^ (((Nat.toDigits 10 digits).length : ℤ) - 1) ≤ digits ∧
      (digits : ℚ) < 10 ^ ((Nat.toDigits 10 digits).length : ℤ) := by
  have length (k : Nat) (hk : 0 < k) : (Nat.toDigits 10 digits).length ≤ k ↔ digits < 10 ^ k :=
    Nat.length_toDigits_le_iff (by decide) hk
  have nonempty : 0 < (Nat.toDigits 10 digits).length := Nat.length_toDigits_pos
  generalize (Nat.toDigits 10 digits).length = size at *
  obtain ⟨k, rfl⟩ := Nat.exists_eq_add_one.2 nonempty
  constructor
  · rw [Nat.cast_succ, add_sub_cancel_right, zpow_natCast]
    rcases Nat.eq_zero_or_pos k with rfl | more
    · exact_mod_cast positive
    · exact_mod_cast not_lt.1 (mt (length k more).2 (by omega))
  · rw [zpow_natCast]
    exact_mod_cast (length (k + 1) nonempty).1 le_rfl

/-- Three binary places are worth less than one decimal place. -/
theorem two_pow_lt_ten_pow {k n : Nat} (less : k < 3 * n) : (2 : ℚ) ^ k < 10 ^ n := by
  calc (2 : ℚ) ^ k < 2 ^ (3 * n) := pow_lt_pow_right₀ one_lt_two less
    _ = 8 ^ n := by rw [pow_mul]; norm_num
    _ ≤ 10 ^ n := pow_le_pow_left₀ (by norm_num) (by norm_num) n

/-- A decimal that a number covers is read as that number. -/
theorem ofDecimal_of_covers {x : Binary64} {digits : Nat} {power : ℤ}
    (nonzero : x.significand ≠ 0) (covers : x.Covers (digits * 10 ^ power)) :
    ofDecimal x.negative digits power = some x := by
  obtain ⟨least, greatest⟩ := covers.range nonzero
  have positive := covers.digits_pos nonzero
  obtain ⟨lower, upper⟩ := toDigits_bounds positive
  unfold ofDecimal
  generalize ((Nat.toDigits 10 digits).length : ℤ) = size at *
  have positive' : (0 : ℚ) < 10 ^ power := zpow_pos (by norm_num) power
  have small : ¬ (digits = 0 ∨ power + size < -400) := by
    rintro (zero | small)
    · exact positive.ne' zero
    · have tiny : (digits : ℚ) * 10 ^ power < 2 ^ (-1075 : ℤ) := by
        calc (digits : ℚ) * 10 ^ power < 10 ^ size * 10 ^ power :=
              mul_lt_mul_of_pos_right upper positive'
          _ = 10 ^ (size + power) := (zpow_add₀ (by norm_num) size power).symm
          _ ≤ 10 ^ (-401 : ℤ) := zpow_le_zpow_right₀ (by norm_num) (by omega)
          _ < 2 ^ (-1075 : ℤ) := by
            rw [zpow_neg, zpow_neg]
            exact inv_strictAnti₀ (by positivity)
              (by exact_mod_cast two_pow_lt_ten_pow (k := 1075) (n := 401) (by decide))
      linarith
  have large : ¬ 400 < power + size := by
    intro large
    have huge : (2 : ℚ) ^ (1024 : ℤ) < digits * 10 ^ power := by
      calc (2 : ℚ) ^ (1024 : ℤ) < 10 ^ (400 : ℤ) := by
            exact_mod_cast two_pow_lt_ten_pow (k := 1024) (n := 400) (by decide)
        _ ≤ 10 ^ (size - 1 + power) := zpow_le_zpow_right₀ (by norm_num) (by omega)
        _ = 10 ^ (size - 1) * 10 ^ power := zpow_add₀ (by norm_num) (size - 1) power
        _ ≤ digits * 10 ^ power := mul_le_mul_of_nonneg_right lower positive'.le
    linarith
  dsimp only
  rw [if_neg small, if_neg large]
  refine ofRatio_of_covers (Nat.mul_pos positive (Nat.pow_pos (by decide)))
    (Nat.pow_pos (by decide)) ?_
  have ratio : ((digits * Nat.pow 10 power.toNat : Nat) : ℚ) / (Nat.pow 10 (-power).toNat : Nat) =
      digits * 10 ^ power := by
    rw [← pow_toNat_div (by norm_num) power]
    push_cast [Nat.pow_eq]
    ring
  rwa [ratio]

end ZodModules.Binary64
