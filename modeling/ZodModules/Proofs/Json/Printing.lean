import ZodModules.Json.Printer
import ZodModules.Proofs.Naming.Characters
import Mathlib.Data.List.DropRight

/-!
# The text of JSON values

The compact text of a value has no control characters: those of its strings and keys are escaped,
and nothing else in it is one. So it is a single line, whatever the value.
-/

namespace ZodModules

namespace Text

/-- A text without control characters below the space. -/
def IsPrinted (text : List Char) : Prop := ∀ c ∈ text, 32 ≤ c.toNat

variable {first second text : List Char}

@[simp] theorem isPrinted_nil : IsPrinted [] := List.forall_mem_nil _

@[simp] theorem isPrinted_cons_iff {c : Char} :
    IsPrinted (c :: text) ↔ 32 ≤ c.toNat ∧ IsPrinted text := List.forall_mem_cons

@[simp] theorem isPrinted_append_iff :
    IsPrinted (first ++ second) ↔ IsPrinted first ∧ IsPrinted second := List.forall_mem_append

theorem IsPrinted.sublist (printed : IsPrinted second) (sub : first.Sublist second) :
    IsPrinted first := fun c member => printed c (sub.subset member)

theorem isPrinted_replicate {c : Char} (visible : 32 ≤ c.toNat) (count : Nat) :
    IsPrinted (List.replicate count c) := by
  intro other member
  rwa [List.eq_of_mem_replicate member]

@[simp] theorem isPrinted_toDigits (number : Nat) : IsPrinted (Nat.toDigits 10 number) := by
  intro c member
  have digit := isDigit_iff.1 (Nat.isDigit_of_mem_toDigits (by decide) (by decide) member)
  omega

theorem IsPrinted.not_mem_newline (printed : IsPrinted text) : '\n' ∉ text := by
  intro member
  exact absurd (printed '\n' member) (by decide)

end Text

open Text

namespace DecimalLayout

theorem isPrinted_significantDigits (digits : Nat) (power : Int) :
    IsPrinted (significantDigits digits power).1 :=
  (isPrinted_toDigits digits).sublist (List.rdropWhile_prefix (· == '0') _).sublist

variable (layout : DecimalLayout) (ending : IsPrinted layout.integralEnd.toList)
include ending

theorem isPrinted_magnitude {digits : List Char} (printed : IsPrinted digits) (power : Int) :
    IsPrinted (layout.magnitude digits power).toList := by
  have zeros (count : Nat) : IsPrinted (List.replicate count '0') :=
    isPrinted_replicate (by decide) count
  have taken (count : Nat) := printed.sublist (List.take_sublist count digits)
  have dropped (count : Nat) := printed.sublist (List.drop_sublist count digits)
  unfold magnitude
  dsimp only
  split
  · split
    · simp [printed, zeros, ending]
    · split
      · simp [taken, dropped]
      · simp [printed, zeros]
  · have fraction := printed.sublist (List.tail_sublist digits)
    split <;> split <;> simp [taken, fraction]

/-- A layout adds no control characters to a number, unless its end has some. -/
theorem isPrinted_print (x : Binary64) : IsPrinted (layout.print x).toList := by
  unfold print
  split
  · split <;> simp [ending]
  · have text (digits : Nat) (power : Int) :=
      layout.isPrinted_magnitude ending (isPrinted_significantDigits digits power)
        (significantDigits digits power).2
    dsimp only
    split <;> simp [text]

end DecimalLayout

namespace Quoted

theorem isPrinted_escape (c : Char) : IsPrinted (escape c) := by
  have digits : ∀ n < 16, 32 ≤ (hexDigit n).toNat := by decide
  unfold escape
  -- Of the forms only the last two depend on the character.
  by_cases control : c.toNat < 32
  · have first := digits (c.toNat / 16) (by omega)
    have second := digits (c.toNat % 16) (by omega)
    repeat' split
    all_goals simp [first, second]
  · have visible : 32 ≤ c.toNat := by omega
    repeat' split
    all_goals simp [visible]

theorem isPrinted_chars (text : List Char) : IsPrinted (chars text) := by
  unfold chars
  have inside : IsPrinted (text.flatMap escape) := by
    intro c member
    obtain ⟨origin, -, form⟩ := List.mem_flatMap.1 member
    exact isPrinted_escape origin c form
  simp [inside]

end Quoted

namespace Json

theorem Number.isPrinted_text (number : Number) : IsPrinted number.text.toList := by
  cases number with
  | integer n =>
    cases n with
    | ofNat n =>
      show IsPrinted (toString n).toList
      simp
    | negSucc n =>
      show IsPrinted ("-" ++ toString (n + 1)).toList
      simp
  | float x => exact layout.isPrinted_print (by simp [layout]) x

theorem Token.isPrinted_text (token : Token) : IsPrinted token.text.toList := by
  cases token with
  | number number => exact number.isPrinted_text
  | string text =>
    show IsPrinted (String.ofList (Quoted.chars text.toList)).toList
    rw [String.toList_ofList]
    exact Quoted.isPrinted_chars text.toList
  | bool value => cases value <;> simp [Token.text]
  | _ => simp [Token.text]

/-- The compact text of a value has no control characters. -/
theorem isPrinted_text (value : Json) : IsPrinted value.text.toList := by
  intro c member
  rw [text, String.toList_join, List.mem_flatMap] at member
  obtain ⟨part, inside, here⟩ := member
  obtain ⟨token, -, rfl⟩ := List.mem_map.1 inside
  exact token.isPrinted_text c here

end Json

end ZodModules
