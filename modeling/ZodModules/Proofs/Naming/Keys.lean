import ZodModules.Proofs.Naming.Characters
import ZodModules.Proofs.Text.Boundaries

/-!
# Keys of properties

The name of a property stands as a key without quotes if it is an identifier. It is renamed like any
word then, and stays as it is otherwise.
-/

namespace ZodModules.Naming

open Code (IsIdentifier IsNeat Lengthens newName renameFrom)

variable {renamed? : String → Option String}

theorem isWordChar_of_isIdentifierStart {c : Char} (start : isIdentifierStart c) :
    Code.isWordChar c := by
  unfold isIdentifierStart at start
  rw [Bool.or_eq_true, Bool.or_eq_true, beq_iff_eq, beq_iff_eq] at start
  rcases start with (letter | rfl) | rfl
  · exact isWordChar_of_isAlphanum (isAlphanum_of_isAlpha letter)
  · decide
  · decide

theorem not_isDigit_of_isIdentifierStart {c : Char} (start : isIdentifierStart c) :
    ¬ c.isDigit := by
  unfold isIdentifierStart at start
  rw [Bool.or_eq_true, Bool.or_eq_true, beq_iff_eq, beq_iff_eq] at start
  intro digit
  rw [isDigit_iff] at digit
  rcases start with (letter | rfl) | rfl
  · have case : (c.isUpper || c.isLower) = true := letter
    rw [Bool.or_eq_true, isUpper_iff, isLower_iff] at case
    omega
  · exact absurd digit (by decide)
  · exact absurd digit (by decide)

theorem isIdentifier_toList {name : String} (identifier : isIdentifier name) :
    IsIdentifier name.toList := by
  unfold isIdentifier at identifier
  cases letters : name.toList with
  | nil =>
    rw [letters] at identifier
    cases identifier
  | cons c rest =>
    rw [letters] at identifier
    obtain ⟨start, others⟩ := Bool.and_eq_true_iff.1 identifier
    refine ⟨⟨c, rest, rfl, not_isDigit_of_isIdentifierStart start⟩, ?_⟩
    rw [List.forall_mem_cons]
    exact ⟨isWordChar_of_isIdentifierStart start, List.all_eq_true.1 others⟩

/-- The name of a property as a key is renamed only if it stands without quotes. -/
theorem renameFrom_propertyKey (name : String) :
    renameFrom renamed? .nothing (propertyKey name).toList =
      if isIdentifier name then (newName renamed? name).toList else (propertyKey name).toList := by
  unfold propertyKey
  by_cases identifier : isIdentifier name
  · rw [if_pos identifier, if_pos identifier,
      Code.renameFrom_identifier (isIdentifier_toList identifier)]
  · rw [if_neg identifier, if_neg identifier, quote, String.toList_ofList, Code.renameFrom_quoted]

theorem isNeat_propertyKey (name : String) : IsNeat (propertyKey name).toList := by
  unfold propertyKey
  by_cases identifier : isIdentifier name
  · rw [if_pos identifier]
    exact Code.isNeat_of_isWordChar (isIdentifier_toList identifier).2
  · rw [if_neg identifier]
    exact Code.isNeat_quote name

section

variable (lengthens : Lengthens renamed?) (name : String)

include lengthens

/-- The key of a property stays exactly if it is quoted or has no new name. -/
theorem renameFrom_propertyKey_eq_iff :
    renameFrom renamed? .nothing (propertyKey name).toList = (propertyKey name).toList ↔
      (isIdentifier name → renamed? name = none) := by
  rw [renameFrom_propertyKey]
  by_cases identifier : isIdentifier name
  · rw [if_pos identifier, propertyKey, if_pos identifier, String.toList_inj,
      lengthens.newName_eq_iff]
    exact ⟨fun kept _ => kept, fun kept => kept identifier⟩
  · rw [if_neg identifier]
    exact ⟨fun _ is => absurd is identifier, fun _ => rfl⟩

theorem length_propertyKey_le :
    (propertyKey name).toList.length ≤
      (renameFrom renamed? .nothing (propertyKey name).toList).length := by
  rw [renameFrom_propertyKey]
  split
  case isTrue identifier =>
    rw [propertyKey, if_pos identifier]
    exact lengthens.length_le_newName name
  case isFalse => exact Nat.le_refl _

end

end ZodModules.Naming
