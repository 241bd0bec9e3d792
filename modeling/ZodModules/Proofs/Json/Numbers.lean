import ZodModules.Json.Token
import ZodModules.Proofs.Decimal.Shortest
import ZodModules.Proofs.Naming.Characters
import Mathlib.Data.List.DropRight

/-!
# Numbers and their texts

The text of a number reads back to it: an integer that keeps its exact value, and every binary64
number. A text with a point or an exponent is read as the decimal that its digits and its exponent
say, so the text of a float is as good as the shortest decimal that was found for it.
-/

namespace ZodModules

namespace Text

/-- A text of decimal digits. -/
def IsDigits (text : List Char) : Prop := ∀ c ∈ text, c.isDigit

theorem isDigits_append {first second : List Char} :
    IsDigits (first ++ second) ↔ IsDigits first ∧ IsDigits second := List.forall_mem_append

theorem isDigits_toDigits (n : Nat) : IsDigits (Nat.toDigits 10 n) := fun _ member =>
  Nat.isDigit_of_mem_toDigits (by decide) (by decide) member

theorem isDigits_replicate (count : Nat) : IsDigits (List.replicate count '0') := by
  intro c member
  rw [List.eq_of_mem_replicate member]
  rfl

theorem IsDigits.sublist {first second : List Char} (digits : IsDigits second)
    (sub : first.Sublist second) : IsDigits first := fun c member => digits c (sub.subset member)

theorem decimalValue_toDigits (n : Nat) : decimalValue (Nat.toDigits 10 n) = n :=
  Nat.ofDigitChars_ten_toDigits

theorem decimalValue_append (first second : List Char) :
    decimalValue (first ++ second) = decimalValue first * 10 ^ second.length + decimalValue second := by
  have split : decimalValue (first ++ second) = Nat.ofDigitChars 10 second (decimalValue first) :=
    Nat.ofDigitChars_append 0
  rw [split, Nat.ofDigitChars_eq_ofDigitChars_zero, Nat.mul_comm]
  rfl

theorem decimalValue_replicate (count : Nat) : decimalValue (List.replicate count '0') = 0 :=
  Nat.ofDigitChars_replicate_zero.trans (Nat.mul_zero _)

/-- The digits of a positive number do not begin with a zero. -/
theorem head?_toDigits {n : Nat} (positive : 0 < n) : (Nat.toDigits 10 n).head? ≠ some '0' := by
  induction n using Nat.strong_induction_on with
  | _ n ih =>
    rw [Nat.toDigits_eq_if (by decide)]
    split
    · rename_i small
      have all : ∀ k < 10, 0 < k → [k.digitChar].head? ≠ some '0' := by decide
      exact all n small positive
    · rw [List.head?_append_of_ne_nil _ Nat.toDigits_ne_nil]
      exact ih (n / 10) (by omega) (by omega)

end Text

open Text

namespace Decimal

/-- What a run of digits stops at. -/
def Stops (rest : List Char) : Prop := ∀ c ∈ rest.head?, ¬ c.isDigit

theorem digits?_append {digits rest : List Char} (nonempty : digits ≠ []) (all : IsDigits digits)
    (stops : Stops rest) : digits? (digits ++ rest) = some (digits, rest) := by
  have taken : (digits ++ rest).takeWhile Char.isDigit = digits := by
    rw [List.takeWhile_append_of_pos all]
    cases rest with
    | nil => rw [List.takeWhile_nil, List.append_nil]
    | cons c rest => rw [List.takeWhile_cons_of_neg (stops c rfl), List.append_nil]
  have dropped : (digits ++ rest).dropWhile Char.isDigit = rest := by
    rw [List.dropWhile_append_of_pos all]
    cases rest with
    | nil => rfl
    | cons c rest => rw [List.dropWhile_cons_of_neg (stops c rfl)]
  unfold digits?
  rw [taken, dropped]
  cases digits with
  | nil => exact absurd rfl nonempty
  | cons => rfl

theorem digits?_of_digits {digits : List Char} (nonempty : digits ≠ []) (all : IsDigits digits) :
    digits? digits = some (digits, []) := by
  have read := digits?_append nonempty all
    (show Stops [] from fun _ impossible => nomatch impossible)
  rwa [List.append_nil] at read

theorem eq_of_digits? {text digits rest : List Char} (found : digits? text = some (digits, rest)) :
    text = digits ++ rest ∧ IsDigits digits := by
  unfold digits? at found
  split at found
  · cases found
  · cases found
    exact ⟨List.takeWhile_append_dropWhile.symm, fun _ member => List.mem_takeWhile_imp member⟩

/-- A text of a number with a fraction or an exponent, part by part. -/
structure Numeral where
  whole : List Char
  decimals : List Char
  tail : List Char
  power : ℤ
  digits : IsDigits whole
  nonempty : whole ≠ []
  lead : whole.length = 1 ∨ whole.head? ≠ some '0'
  fraction : IsDigits decimals
  reads : exponent? tail = some power
  pointed : decimals ≠ [] ∨ tail ≠ []

namespace Numeral

/-- The text of the parts. -/
def text (numeral : Numeral) : List Char :=
  numeral.whole ++ (if numeral.decimals = [] then [] else '.' :: numeral.decimals) ++ numeral.tail

/-- The number that the parts say. -/
def value (numeral : Numeral) : ℚ :=
  decimalValue (numeral.whole ++ numeral.decimals) *
    10 ^ (numeral.power - numeral.decimals.length)

theorem head?_text (numeral : Numeral) : ∀ c ∈ numeral.text.head?, c.isDigit := by
  intro c first
  rw [text, List.append_assoc, List.head?_append_of_ne_nil _ numeral.nonempty] at first
  exact numeral.digits c (List.mem_of_head? first)

end Numeral

/-- The part after the digits is empty or begins with the mark of an exponent. -/
theorem head?_of_exponent? {tail : List Char} {power : ℤ} (reads : exponent? tail = some power) :
    ∀ c ∈ tail.head?, c = 'e' ∨ c = 'E' := by
  intro c first
  cases tail with
  | nil => cases first
  | cons e rest =>
    cases first
    by_contra other
    rw [exponent?, if_neg other] at reads
    cases reads

end Decimal

open Decimal

namespace Json.Number

/-- A text with a fraction or an exponent is read as the number nearest to what its parts say. -/
theorem unsigned?_numeral (negative : Bool) (numeral : Numeral) :
    unsigned? negative numeral.text =
      (Binary64.ofDecimal negative (decimalValue (numeral.whole ++ numeral.decimals))
        (numeral.power - numeral.decimals.length)).map .float := by
  obtain ⟨whole, decimals, tail, power, digits, nonempty, lead, fraction, reads, pointed⟩ := numeral
  have marks := head?_of_exponent? reads
  have stops : Stops tail := by
    intro c first
    rcases marks c first with rfl | rfl <;> decide
  have zeros : ¬ (whole.length ≠ 1 ∧ whole.head? = some '0') := by
    rintro ⟨several, zero⟩
    rcases lead with one | other
    · exact several one
    · exact other zero
  show unsigned? negative (whole ++ (if decimals = [] then [] else '.' :: decimals) ++ tail) = _
  by_cases whole_only : decimals = []
  · subst whole_only
    rw [if_pos rfl, List.append_nil, unsigned?, digits?_append nonempty digits stops]
    have more : tail.isEmpty = false := by
      cases tail with
      | nil => simp at pointed
      | cons => rfl
    have fraction' : fraction? tail = some ([], tail) := by
      unfold fraction?
      split
      · rename_i rest
        rcases marks '.' rfl with mark | mark <;> exact absurd mark (by decide)
      · rfl
    dsimp only
    rw [if_neg zeros, more, fraction', if_neg Bool.false_ne_true]
    dsimp only
    rw [reads, List.append_nil]
  · rw [if_neg whole_only, List.append_assoc, unsigned?, digits?_append nonempty digits (by
      intro c first
      cases first
      decide)]
    dsimp only [List.cons_append]
    rw [if_neg zeros]
    have fraction' : fraction? ('.' :: (decimals ++ tail)) = some (decimals, tail) :=
      digits?_append whole_only fraction stops
    rw [fraction']
    dsimp only
    rw [reads]
    rfl

/-- A text that says a decimal which a number covers is read as that number. -/
theorem unsigned?_of_covers {x : Binary64} (nonzero : x.significand ≠ 0) {numeral : Numeral}
    (covers : x.Covers numeral.value) : unsigned? x.negative numeral.text = some (.float x) := by
  rw [unsigned?_numeral, Binary64.ofDecimal_of_covers nonzero covers]
  rfl

end Json.Number

namespace DecimalLayout

/-- Only zeros are left out at the end of a text. -/
theorem exists_zeros (text : List Char) :
    ∃ count, text = text.rdropWhile (· == '0') ++ List.replicate count '0' := by
  have zeros : ∀ c ∈ text.reverse.takeWhile (· == '0'), c = '0' := fun _ member =>
    beq_iff_eq.1 (List.mem_takeWhile_imp (p := (· == '0')) member)
  refine ⟨(text.reverse.takeWhile (· == '0')).length, ?_⟩
  rw [← List.reverse_inj, List.reverse_append, List.reverse_replicate, List.rdropWhile,
    List.reverse_reverse, ← List.eq_replicate_of_mem zeros, List.takeWhile_append_dropWhile]

/-- A decimal without its trailing zeros: the digits that are left begin with none of them, and they
say the same number with the power of the last one. -/
theorem significantDigits_spec {digits : Nat} (positive : 0 < digits) (power : ℤ) :
    IsDigits (significantDigits digits power).1 ∧ (significantDigits digits power).1 ≠ [] ∧
      (significantDigits digits power).1.head? ≠ some '0' ∧
      (decimalValue (significantDigits digits power).1 : ℚ) * 10 ^ (significantDigits digits power).2 =
        digits * 10 ^ power := by
  have parts : significantDigits digits power =
      ((Nat.toDigits 10 digits).rdropWhile (· == '0'), power + ((Nat.toDigits 10 digits).length -
        ((Nat.toDigits 10 digits).rdropWhile (· == '0')).length : Nat)) := rfl
  have value := decimalValue_toDigits digits
  have lead := head?_toDigits positive
  have all := isDigits_toDigits digits
  obtain ⟨count, split⟩ := exists_zeros (Nat.toDigits 10 digits)
  rw [parts]
  generalize (Nat.toDigits 10 digits).rdropWhile (· == '0') = kept at *
  rw [split] at value lead all ⊢
  have nonempty : kept ≠ [] := by
    rintro rfl
    rw [List.nil_append, decimalValue_replicate] at value
    omega
  refine ⟨(isDigits_append.1 all).1, nonempty, ?_, ?_⟩
  · rwa [List.head?_append_of_ne_nil _ nonempty] at lead
  · rw [decimalValue_append, decimalValue_replicate, List.length_replicate, Nat.add_zero] at value
    rw [List.length_append, List.length_replicate, Nat.add_sub_cancel_left, ← value,
      zpow_add₀ (by norm_num), zpow_natCast]
    push_cast
    ring

end DecimalLayout

namespace Json.Number

section Magnitudes

variable {digits : List Char} (all : IsDigits digits) (nonempty : digits ≠ [])
  (lead : digits.head? ≠ some '0')

include all nonempty lead

/-- The parts of an integral number written without an exponent. -/
def integralNumeral (count : Nat) : Numeral where
  whole := digits ++ List.replicate count '0'
  decimals := ['0']
  tail := []
  power := 0
  digits := isDigits_append.2 ⟨all, isDigits_replicate count⟩
  nonempty := by simp [nonempty]
  lead := .inr (by rwa [List.head?_append_of_ne_nil _ nonempty])
  fraction := isDigits_replicate 1
  reads := rfl
  pointed := .inl (List.cons_ne_nil _ _)

theorem value_integralNumeral (count : Nat) :
    (integralNumeral all nonempty lead count).value = decimalValue digits * 10 ^ count := by
  have zero : decimalValue ['0'] = 0 := rfl
  show (decimalValue (digits ++ List.replicate count '0' ++ ['0']) : ℚ) *
    10 ^ ((0 : ℤ) - (1 : ℕ)) = _
  rw [decimalValue_append, decimalValue_append, decimalValue_replicate, zero]
  simp

/-- The parts of a number whose point, if it has one, stands between its digits. -/
def splitNumeral {count : Nat} (positive : 0 < count) {tail : List Char} {power : ℤ}
    (reads : exponent? tail = some power) (pointed : count < digits.length ∨ tail ≠ []) : Numeral where
  whole := digits.take count
  decimals := digits.drop count
  tail := tail
  power := power
  digits := all.sublist (List.take_sublist count digits)
  nonempty := by simp [nonempty, positive.ne']
  lead := .inr (by rwa [List.head?_take, if_neg positive.ne'])
  fraction := all.sublist (List.drop_sublist count digits)
  reads := reads
  pointed := pointed.imp_left fun less => by simp [less]

theorem value_splitNumeral {count : Nat} (positive : 0 < count) {tail : List Char} {power : ℤ}
    (reads : exponent? tail = some power) (pointed : count < digits.length ∨ tail ≠ []) :
    (splitNumeral all nonempty lead positive reads pointed).value =
      decimalValue digits * 10 ^ (power - (digits.length - count : ℕ)) := by
  show (decimalValue (digits.take count ++ digits.drop count) : ℚ) *
    10 ^ (power - (digits.drop count).length) = _
  rw [List.take_append_drop, List.length_drop]

omit lead in
/-- The parts of a number below one written without an exponent. -/
def fractionNumeral (zeros : Nat) : Numeral where
  whole := ['0']
  decimals := List.replicate zeros '0' ++ digits
  tail := []
  power := 0
  digits := isDigits_replicate 1
  nonempty := List.cons_ne_nil _ _
  lead := .inl rfl
  fraction := isDigits_append.2 ⟨isDigits_replicate zeros, all⟩
  reads := rfl
  pointed := .inl (by simp [nonempty])

omit lead in
theorem value_fractionNumeral (zeros : Nat) :
    (fractionNumeral all nonempty zeros).value =
      decimalValue digits * 10 ^ (-(zeros + digits.length : ℕ) : ℤ) := by
  have zero : decimalValue ['0'] = 0 := rfl
  show (decimalValue (['0'] ++ (List.replicate zeros '0' ++ digits)) : ℚ) *
    10 ^ ((0 : ℤ) - (List.replicate zeros '0' ++ digits).length) = _
  rw [decimalValue_append, decimalValue_append, decimalValue_replicate, zero, List.length_append,
    List.length_replicate, Nat.zero_mul, Nat.zero_mul, Nat.zero_add, Nat.zero_add, zero_sub]

omit all nonempty lead in
/-- The exponent that is written is read. -/
theorem exponent?_text (first : ℤ) :
    exponent? ('e' :: (if first < 0 then '-' else '+') :: Nat.toDigits 10 first.natAbs) =
      some first := by
  have value := decimalValue_toDigits first.natAbs
  have read := digits?_of_digits Nat.toDigits_ne_nil (isDigits_toDigits first.natAbs)
  rw [exponent?, if_pos (.inl rfl)]
  rcases lt_or_ge first 0 with negative | positive
  · have sign (rest : List Char) : splitSign ('-' :: rest) = (true, rest) := rfl
    rw [if_pos negative, sign]
    dsimp only
    rw [read]
    dsimp only
    rw [if_pos rfl, value]
    congr 1
    omega
  · have sign (rest : List Char) : splitSign ('+' :: rest) = (false, rest) := rfl
    rw [if_neg (not_lt.2 positive), sign]
    dsimp only
    rw [read]
    dsimp only
    rw [if_neg Bool.false_ne_true, value]
    congr 1
    omega

omit all nonempty lead in
/-- The point is written where there are digits to stand after it. -/
theorem toList_fraction (decimals : List Char) :
    (if decimals.isEmpty then "" else "." ++ String.ofList decimals).toList =
      if decimals = [] then [] else '.' :: decimals := by
  by_cases alone : decimals = []
  · rw [if_pos (List.isEmpty_iff.2 alone), if_pos alone]
    rfl
  · rw [if_neg (mt List.isEmpty_iff.1 alone), if_neg alone, String.toList_append]
    simp

/-- A number in digits with a power of ten is written as a text that says it. -/
theorem exists_numeral (power : ℤ) :
    ∃ numeral : Numeral, (layout.magnitude digits power).toList = numeral.text ∧
      numeral.value = decimalValue digits * 10 ^ power := by
  have positive : 0 < digits.length := List.length_pos_iff.2 nonempty
  unfold DecimalLayout.magnitude
  generalize first_eq : (digits.length : ℤ) - 1 + power = first
  dsimp only
  split
  · split
    · rename_i integral
      refine ⟨integralNumeral all nonempty lead power.toNat, ?_, ?_⟩
      · simp [layout, Numeral.text, integralNumeral]
      · rw [value_integralNumeral, ← zpow_natCast, Int.toNat_of_nonneg integral]
    · split
      · rename_i between
        have less : first.toNat + 1 < digits.length := by omega
        refine ⟨splitNumeral all nonempty lead (Nat.succ_pos first.toNat)
          (show exponent? [] = some 0 from rfl) (.inl less), ?_, ?_⟩
        · have more : digits.drop (first.toNat + 1) ≠ [] := by simp [less]
          simp [Numeral.text, splitNumeral, more]
        · rw [value_splitNumeral]
          congr 2
          omega
      · refine ⟨fractionNumeral all nonempty (-first - 1).toNat, ?_, ?_⟩
        · simp [Numeral.text, fractionNumeral, nonempty]
        · rw [value_fractionNumeral]
          congr 2
          omega
  · refine ⟨splitNumeral all nonempty lead Nat.one_pos (exponent?_text first)
      (.inr (List.cons_ne_nil _ _)), ?_, ?_⟩
    · have sign : (if first < 0 then "-" else "+").toList = [if first < 0 then '-' else '+'] := by
        split <;> rfl
      simp only [Nat.toString_eq_ofList_toDigits, String.toList_append, String.toList_ofList, sign,
        toList_fraction]
      simp [Numeral.text, splitNumeral]
    · rw [value_splitNumeral]
      congr 2
      omega

end Magnitudes

/-- A text that begins with a digit has no sign. -/
theorem ofChars?_of_digit {text : List Char} (start : ∀ c ∈ text.head?, c.isDigit) :
    ofChars? text = unsigned? false text := by
  unfold ofChars?
  split
  · exact absurd (start '-' rfl) (by decide)
  · rfl

/-- A float is written with its sign as a text that is read as the float. -/
theorem exists_print (x : Binary64) :
    ∃ numeral : Numeral, unsigned? x.negative numeral.text = some (.float x) ∧
      (layout.print x).toList = (if x.negative then ['-'] else []) ++ numeral.text := by
  by_cases zero : x.significand = 0
  · refine ⟨fractionNumeral (isDigits_replicate 1) (List.cons_ne_nil _ _) 0, ?_, ?_⟩
    · rw [unsigned?_numeral]
      conv_rhs => rw [Binary64.eq_zero_of_significand zero]
      rfl
    · rw [DecimalLayout.print, if_pos zero]
      cases x.negative <;> rfl
  · have covers := Binary64.covers_shortest layout.tie zero
    have positive : 0 < (x.shortest layout.tie).1 := covers.digits_pos zero
    obtain ⟨all, nonempty, lead, value⟩ :=
      DecimalLayout.significantDigits_spec positive (x.shortest layout.tie).2
    obtain ⟨numeral, text, same⟩ := exists_numeral all nonempty lead
      (DecimalLayout.significantDigits (x.shortest layout.tie).1 (x.shortest layout.tie).2).2
    refine ⟨numeral, unsigned?_of_covers zero (by rwa [same, value]), ?_⟩
    rw [DecimalLayout.print, if_neg zero, String.toList_append, ← text]
    cases x.negative <;> rfl

/-- The text of a float reads back to it. -/
theorem ofChars?_float (x : Binary64) :
    ofChars? (Number.float x).text.toList = some (.float x) := by
  obtain ⟨numeral, read, text⟩ := exists_print x
  rw [Number.text, text]
  cases negative : x.negative with
  | false =>
    rw [negative] at read
    rw [if_neg Bool.false_ne_true, List.nil_append, ofChars?_of_digit numeral.head?_text, read]
  | true =>
    rw [negative] at read
    exact read

/-- The text of an integer reads back to it if the integer keeps its exact value. -/
theorem ofChars?_integer {n : Int} (exactInteger : isExact n) :
    ofChars? (Number.integer n).text.toList = some (.integer n) := by
  have read (negative : Bool) (k : Nat) (value_eq : (if negative then -(k : ℤ) else k) = n)
      (signed : (negative && n == 0) = false) :
      unsigned? negative (Nat.toDigits 10 k) = some (.integer n) := by
    have parts := digits?_of_digits Nat.toDigits_ne_nil (isDigits_toDigits k)
    have zeros : ¬ ((Nat.toDigits 10 k).length ≠ 1 ∧ (Nat.toDigits 10 k).head? = some '0') := by
      rintro ⟨several, zero⟩
      rcases Nat.eq_zero_or_pos k with rfl | positive
      · exact several rfl
      · exact head?_toDigits positive zero
    rw [unsigned?, parts]
    dsimp only
    rw [if_neg zeros, if_pos List.isEmpty_nil, decimalValue_toDigits, value_eq,
      if_pos (by rw [exactInteger, signed]; rfl)]
  have text (k : Nat) : (toString k).toList = Nat.toDigits 10 k := by
    rw [Nat.toString_eq_ofList_toDigits, String.toList_ofList]
  cases n with
  | ofNat k =>
    show ofChars? (toString k).toList = _
    rw [text, ofChars?_of_digit]
    · exact read false k rfl rfl
    · intro c first
      exact isDigits_toDigits k c (List.mem_of_head? first)
  | negSucc k =>
    show ofChars? ("-" ++ toString (k + 1)).toList = _
    rw [String.toList_append, text]
    exact read true (k + 1) rfl rfl

/-- The text of a number reads back to it if the number keeps its exact value. -/
theorem ofChars?_text (number : Number) (exactInteger : ∀ n, number = .integer n → isExact n) :
    ofChars? number.text.toList = some number := by
  cases number with
  | integer n => exact ofChars?_integer (exactInteger n rfl)
  | float x => exact ofChars?_float x

theorem ne_integer_of_map {x? : Option Binary64} {n : Int} :
    x?.map float ≠ some (.integer n) := by
  cases x? <;> simp

/-- An integer that is read keeps its exact value. -/
theorem isExact_of_unsigned? {negative : Bool} {text : List Char} {n : Int}
    (read : unsigned? negative text = some (.integer n)) : isExact n := by
  have kept {value : Int} {x? : Option Binary64}
      (read : (if isExact value && !(negative && value == 0) then some (integer value)
        else x?.map float) = some (integer n)) : isExact n := by
    split at read
    · rename_i whole
      cases read
      exact (Bool.and_eq_true_iff.1 whole).1
    · exact absurd read ne_integer_of_map
  unfold unsigned? at read
  split at read
  · cases read
  · split at read
    · cases read
    · split at read
      · exact kept read
      · split at read
        · cases read
        · split at read
          · cases read
          · exact absurd read ne_integer_of_map

theorem isExact_of_ofChars? {text : List Char} {n : Int}
    (read : ofChars? text = some (.integer n)) : isExact n := by
  unfold ofChars? at read
  split at read
  · exact isExact_of_unsigned? read
  · exact isExact_of_unsigned? read

end Json.Number

end ZodModules
