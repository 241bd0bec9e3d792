import ZodModules.Model.Basic
import Mathlib.Data.List.Nodup

/-!
# Numbered names

A number that makes a name distinct can be told from the name it gives, so each taken name rules out
one number at most, and among one more number than there are taken names one is free.
-/

namespace ZodModules

/-- Some things each rule out one candidate at most. With fewer of them than candidates, a candidate
is left. -/
theorem exists_not_blocked {α β : Type} {blocks : β → α → Prop}
    (once : ∀ b first second, blocks b first → blocks b second → first = second)
    (taken : List β) {candidates : List α} (nodup : candidates.Nodup)
    (fewer : taken.length < candidates.length) :
    ∃ candidate ∈ candidates, ∀ b ∈ taken, ¬ blocks b candidate := by
  classical
  induction taken generalizing candidates with
  | nil =>
    obtain ⟨candidate, member⟩ := List.exists_mem_of_length_pos fewer
    exact ⟨candidate, member, by simp⟩
  | cons b rest ih =>
    rw [List.length_cons] at fewer
    by_cases used : ∃ candidate ∈ candidates, blocks b candidate
    · obtain ⟨lost, member, blocked⟩ := used
      have length := List.length_erase_of_mem member
      obtain ⟨candidate, kept, free⟩ := ih (nodup.erase lost) (by omega)
      have different : candidate ≠ lost := by
        rintro rfl
        exact nodup.not_mem_erase kept
      refine ⟨candidate, List.mem_of_mem_erase kept, ?_⟩
      intro other inside
      rcases List.mem_cons.1 inside with rfl | inside
      · intro also
        exact different (once _ _ _ also blocked)
      · exact free other inside
    · obtain ⟨candidate, member, free⟩ := ih nodup (by omega)
      refine ⟨candidate, member, ?_⟩
      intro other inside
      rcases List.mem_cons.1 inside with rfl | inside
      · intro blocked
        exact used ⟨candidate, member, blocked⟩
      · exact free other inside

namespace Model

theorem toString_injective {first second : Nat} (same : toString first = toString second) :
    first = second := by
  have digits := congrArg (fun text => Nat.ofDigitChars 10 text.toList 0) same
  simpa [Nat.toString_eq_ofList_toDigits] using digits

@[simp] theorem numbered_one (name : String) : numbered name 1 = name := rfl

theorem numbered_of_ne_one (name : String) {number : Nat} (several : number ≠ 1) :
    numbered name number = name ++ toString number := if_neg several

/-- A numbered name is the name with digits, at least one unless the number is one. -/
theorem exists_digits (name : String) (number : Nat) :
    ∃ digits : List Char, (numbered name number).toList = name.toList ++ digits ∧
      (∀ d ∈ digits, d.isDigit) ∧ (number ≠ 1 → digits ≠ []) := by
  by_cases one : number = 1
  · refine ⟨[], ?_, by simp, fun several => absurd one several⟩
    rw [one, numbered_one, List.append_nil]
  · refine ⟨(toString number).toList, ?_, ?_, fun _ => ?_⟩
    · rw [numbered_of_ne_one name one, String.toList_append]
    · rw [Nat.toString_eq_ofList_toDigits, String.toList_ofList]
      exact fun d member => Nat.isDigit_of_mem_toDigits (by decide) (by decide) member
    · rw [Nat.toString_eq_ofList_toDigits, String.toList_ofList]
      exact Nat.toDigits_ne_nil

theorem numbered_ne (name : String) {number : Nat} (several : number ≠ 1) :
    numbered name number ≠ name := by
  obtain ⟨digits, letters, -, nonempty⟩ := exists_digits name number
  intro same
  rw [same, List.self_eq_append_right] at letters
  exact nonempty several letters

/-- The number of a name can be told from it. -/
theorem numbered_injective (name : String) {first second : Nat}
    (same : numbered name first = numbered name second) : first = second := by
  by_cases one : first = 1
  · by_cases other : second = 1
    · rw [one, other]
    · rw [one, numbered_one] at same
      exact absurd same.symm (numbered_ne name other)
  · by_cases other : second = 1
    · rw [other, numbered_one] at same
      exact absurd same (numbered_ne name one)
    · rw [numbered_of_ne_one name one, numbered_of_ne_one name other] at same
      apply toString_injective
      have lists := congrArg String.toList same
      rw [String.toList_append, String.toList_append] at lists
      exact String.toList_inj.1 (List.append_cancel_left lists)

@[simp] theorem EnumDeclaration.constant_numbered (declaration : EnumDeclaration) (number : Nat) :
    (declaration.numbered number).constant = Model.numbered declaration.constant number := rfl

@[simp] theorem EnumDeclaration.type_numbered (declaration : EnumDeclaration) (number : Nat) :
    (declaration.numbered number).type =
      declaration.type.map fun type => Model.numbered type number := rfl

@[simp] theorem EnumDeclaration.values_numbered (declaration : EnumDeclaration) (number : Nat) :
    (declaration.numbered number).values = declaration.values := rfl

@[simp] theorem EnumDeclaration.numbered_one (declaration : EnumDeclaration) :
    declaration.numbered 1 = declaration := by
  obtain ⟨constant, type, values⟩ := declaration
  cases type <;> rfl

/-- A search among one more number than there are obstacles, each to one number at most, finds
one. -/
theorem exists_find?_range' {β : Type} {blocks : β → Nat → Prop}
    (once : ∀ b first second, blocks b first → blocks b second → first = second)
    {taken : List β} {free : Nat → Bool}
    (blocked : ∀ number, free number = false → ∃ b ∈ taken, blocks b number) {last : Nat}
    (enough : taken.length < last) :
    ∃ number, (List.range' 1 last).find? free = some number := by
  have distinct : (List.range' 1 last).Nodup := List.nodup_range'
  obtain ⟨number, member, unblocked⟩ :=
    exists_not_blocked once taken distinct (by rwa [List.length_range'])
  have is_free : free number := by
    by_contra notFree
    obtain ⟨b, inside, blocks⟩ := blocked number (by simpa using notFree)
    exact unblocked b inside blocks
  exact Option.isSome_iff_exists.1 (List.find?_isSome.2 ⟨number, member, is_free⟩)

end Model

end ZodModules
