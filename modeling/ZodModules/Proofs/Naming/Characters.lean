import ZodModules.Naming
import ZodModules.Text.Code
import Mathlib.Data.List.Basic

/-!
# Characters of names

What the names of generated symbols consist of. All are words of a program text; the constant of an
enum begins with a lower-case letter or an underscore, its type never does.
-/

namespace ZodModules

theorem isLower_iff {c : Char} : c.isLower ↔ 97 ≤ c.toNat ∧ c.toNat ≤ 122 := by
  change (decide (97 ≤ c.val) && decide (c.val ≤ 122)) = true ↔ _
  rw [Bool.and_eq_true, decide_eq_true_eq, decide_eq_true_eq, UInt32.le_iff_toNat_le,
    UInt32.le_iff_toNat_le]
  rfl

theorem isUpper_iff {c : Char} : c.isUpper ↔ 65 ≤ c.toNat ∧ c.toNat ≤ 90 := by
  change decide (65 ≤ c.val ∧ c.val ≤ 90) = true ↔ _
  rw [decide_eq_true_eq, UInt32.le_iff_toNat_le, UInt32.le_iff_toNat_le]
  rfl

theorem isDigit_iff {c : Char} : c.isDigit ↔ 48 ≤ c.toNat ∧ c.toNat ≤ 57 := by
  change (decide (48 ≤ c.val) && decide (c.val ≤ 57)) = true ↔ _
  rw [Bool.and_eq_true, decide_eq_true_eq, decide_eq_true_eq, UInt32.le_iff_toNat_le,
    UInt32.le_iff_toNat_le]
  rfl

theorem isAlphanum_of_isAlpha {c : Char} (letter : c.isAlpha) : c.isAlphanum := by
  show (c.isAlpha || c.isDigit) = true
  rw [letter, Bool.true_or]

theorem isAlphanum_of_isDigit {c : Char} (digit : c.isDigit) : c.isAlphanum := by
  show (c.isAlpha || c.isDigit) = true
  rw [digit, Bool.or_true]

/-- What holds of all ASCII letters and digits, by inspection. -/
theorem forall_isAlphanum {P : Char → Prop}
    (all : ∀ code < 128, (Char.ofNat code).isAlphanum → P (Char.ofNat code)) {c : Char}
    (h : c.isAlphanum) : P c := by
  have small : c.toNat < 128 := by
    change (c.isUpper || c.isLower || c.isDigit) = true at h
    rw [Bool.or_eq_true, Bool.or_eq_true, isUpper_iff, isLower_iff, isDigit_iff] at h
    omega
  have same := Char.ofNat_toNat c
  rw [← same]
  exact all c.toNat small (same.symm ▸ h)

theorem isAlphanum_toLower {c : Char} (h : c.isAlphanum) : c.toLower.isAlphanum :=
  forall_isAlphanum (P := fun c => c.toLower.isAlphanum) (by decide +kernel) h

theorem isAlphanum_toUpper {c : Char} (h : c.isAlphanum) : c.toUpper.isAlphanum :=
  forall_isAlphanum (P := fun c => c.toUpper.isAlphanum) (by decide +kernel) h

theorem toLower_start {c : Char} (h : c.isAlphanum) : c.toLower.isLower ∨ c.toLower.isDigit :=
  forall_isAlphanum (P := fun c => c.toLower.isLower ∨ c.toLower.isDigit) (by decide +kernel) h

theorem toUpper_start {c : Char} (h : c.isAlphanum) : c.toUpper.isUpper ∨ c.toUpper.isDigit :=
  forall_isAlphanum (P := fun c => c.toUpper.isUpper ∨ c.toUpper.isDigit) (by decide +kernel) h

theorem ne_space_of_isAlphanum {c : Char} (h : c.isAlphanum) : c ≠ ' ' := by
  rintro rfl
  exact absurd h (by decide)

namespace Words

/-- The words of a text hold characters of the text only, and no spaces. -/
theorem mem_of_mem_split {text word : List Char} {c : Char} (inside : word ∈ split text)
    (member : c ∈ word) : c ∈ text ∧ c ≠ ' ' := by
  induction text generalizing word with
  | nil =>
    rw [split, List.mem_singleton] at inside
    rw [inside] at member
    simp at member
  | cons first rest ih =>
    rw [split] at inside
    by_cases space : first = ' '
    · rw [if_pos space] at inside
      rcases List.mem_cons.1 inside with rfl | inside
      · simp at member
      · obtain ⟨present, other⟩ := ih inside member
        exact ⟨List.mem_cons_of_mem _ present, other⟩
    · rw [if_neg space] at inside
      have single (only : c ∈ [first]) : c ∈ first :: rest ∧ c ≠ ' ' := by
        rw [List.mem_singleton] at only
        rw [only]
        exact ⟨List.mem_cons_self, space⟩
      by_cases ends : endsAfter first rest
      · rw [if_pos ends] at inside
        rcases List.mem_cons.1 inside with rfl | inside
        · exact single member
        · obtain ⟨present, other⟩ := ih inside member
          exact ⟨List.mem_cons_of_mem _ present, other⟩
      · rw [if_neg ends] at inside
        cases words : split rest with
        | nil =>
          rw [words, List.mem_singleton] at inside
          exact single (inside ▸ member)
        | cons word' words' =>
          rw [words] at inside
          rcases List.mem_cons.1 inside with rfl | inside
          · rcases List.mem_cons.1 member with rfl | member
            · exact ⟨List.mem_cons_self, space⟩
            · obtain ⟨present, other⟩ := ih (words ▸ List.mem_cons_self) member
              exact ⟨List.mem_cons_of_mem _ present, other⟩
          · obtain ⟨present, other⟩ := ih (words ▸ List.mem_cons_of_mem _ inside) member
            exact ⟨List.mem_cons_of_mem _ present, other⟩

/-- The first word of a text that begins with no space begins with what the text does. -/
theorem split_cons {c : Char} (rest : List Char) (h : c ≠ ' ') :
    ∃ word words, split (c :: rest) = (c :: word) :: words := by
  rw [split, if_neg h]
  by_cases ends : endsAfter c rest
  · rw [if_pos ends]
    exact ⟨[], _, rfl⟩
  · rw [if_neg ends]
    cases split rest with
    | nil => exact ⟨[], [], rfl⟩
    | cons word words => exact ⟨word, words, rfl⟩

section

variable {text : List Char} (plain : ∀ c ∈ text, c.isAlphanum ∨ c = ' ')

include plain

theorem isAlphanum_of_mem_split {word : List Char} {c : Char} (inside : word ∈ split text)
    (member : c ∈ word) : c.isAlphanum := by
  obtain ⟨present, other⟩ := mem_of_mem_split inside member
  exact (plain c present).resolve_right other

theorem isAlphanum_of_mem_capitalize {word : List Char} {c : Char} (inside : word ∈ split text)
    (member : c ∈ capitalize word) : c.isAlphanum := by
  have all {d : Char} (present : d ∈ word) := isAlphanum_of_mem_split plain inside present
  cases word with
  | nil => simp [capitalize] at member
  | cons first rest =>
    rcases List.mem_cons.1 member with rfl | member
    · exact isAlphanum_toUpper (all List.mem_cons_self)
    · obtain ⟨d, present, rfl⟩ := List.mem_map.1 member
      exact isAlphanum_toLower (all (List.mem_cons_of_mem _ present))

theorem isAlphanum_of_mem_pascal {c : Char} (member : c ∈ pascal text) : c.isAlphanum := by
  obtain ⟨word, inside, member⟩ := List.mem_flatMap.1 member
  exact isAlphanum_of_mem_capitalize plain inside member

theorem isAlphanum_of_mem_camel {c : Char} (member : c ∈ camel text) : c.isAlphanum := by
  unfold camel at member
  cases words : split text with
  | nil => simp [words] at member
  | cons word rest =>
    rw [words] at member
    rcases List.mem_append.1 member with member | member
    · obtain ⟨d, present, rfl⟩ := List.mem_map.1 member
      exact isAlphanum_toLower (isAlphanum_of_mem_split plain (words ▸ List.mem_cons_self) present)
    · obtain ⟨other, inside, member⟩ := List.mem_flatMap.1 member
      exact isAlphanum_of_mem_capitalize plain (words ▸ List.mem_cons_of_mem _ inside) member

end

end Words

namespace Naming

theorem isAlphanum_of_mem_spaced {name : List Char} {c : Char} (member : c ∈ spaced name) :
    c.isAlphanum ∨ c = ' ' := by
  simp only [spaced, List.mem_reverse] at member
  have member := List.mem_reverse.1 ((List.dropWhile_sublist _).subset member)
  have member := (List.dropWhile_sublist _).subset member
  obtain ⟨d, -, rfl⟩ := List.mem_map.1 member
  by_cases plain : d.isAlphanum
  · rw [if_pos plain]
    exact Or.inl plain
  · rw [if_neg plain]
    exact Or.inr rfl

/-- What is left of a name begins with a letter or a digit. -/
theorem isAlphanum_of_spaced_eq_cons {name : List Char} {c : Char} {rest : List Char}
    (h : spaced name = c :: rest) : c.isAlphanum := by
  have member : c ∈ spaced name := h ▸ List.mem_cons_self
  refine (isAlphanum_of_mem_spaced member).resolve_right ?_
  rintro rfl
  simp only [spaced] at h
  generalize (name.map fun c => if c.isAlphanum then c else ' ') = spaces at h
  obtain ⟨dropped, whole⟩ := List.dropWhile_suffix (l := (spaces.dropWhile (· == ' ')).reverse)
    (· == ' ')
  have whole := congrArg List.reverse whole
  rw [List.reverse_append, h, List.reverse_reverse] at whole
  have head := List.head?_dropWhile_not (· == ' ') spaces
  rw [← whole] at head
  simp at head

/-- The start of an identifier is guarded by an underscore, or it needs none. -/
theorem guardStart_cases (text : List Char) :
    guardStart text = '_' :: text ∨ guardStart text = text ∧ text ≠ [] := by
  cases text with
  | nil => exact Or.inl rfl
  | cons c rest =>
    rw [guardStart]
    by_cases digit : c.isDigit
    · exact Or.inl (if_pos digit)
    · exact Or.inr ⟨if_neg digit, List.cons_ne_nil _ _⟩

theorem mem_guardStart {text : List Char} {c : Char} (member : c ∈ guardStart text) :
    c ∈ text ∨ c = '_' := by
  rcases guardStart_cases text with guarded | ⟨same, -⟩
  · rw [guarded] at member
    exact (List.mem_cons.1 member).symm
  · exact Or.inl (same ▸ member)

theorem isWordChar_of_isAlphanum {c : Char} (h : c.isAlphanum) : Code.isWordChar c := by
  simp [Code.isWordChar, h]

theorem isWordChar_of_mem_camelIdentifier {name : String} {c : Char}
    (member : c ∈ (camelIdentifier name).toList) : Code.isWordChar c := by
  rw [camelIdentifier, String.toList_ofList] at member
  rcases mem_guardStart member with inside | rfl
  · exact isWordChar_of_isAlphanum
      (Words.isAlphanum_of_mem_camel (fun _ => isAlphanum_of_mem_spaced) inside)
  · decide

/-- A name of ASCII letters and digits, with an underscore before them or none. -/
def IsPlain (name : String) : Prop :=
  name ≠ "" ∧ ∃ rest : List Char, (∀ c ∈ rest, c.isAlphanum) ∧
    (name.toList = rest ∨ name.toList = '_' :: rest)

theorem IsPlain.isWordChar {name : String} (plain : IsPlain name) {c : Char}
    (member : c ∈ name.toList) : Code.isWordChar c := by
  obtain ⟨-, rest, letters, whole⟩ := plain
  rcases whole with whole | whole
  · rw [whole] at member
    exact isWordChar_of_isAlphanum (letters c member)
  · rw [whole] at member
    rcases List.mem_cons.1 member with rfl | member
    · decide
    · exact isWordChar_of_isAlphanum (letters c member)

theorem exists_cons_of_isPascal {letters : List Char} (pascal : isPascal letters) :
    ∃ c rest, letters = c :: rest ∧ c.isUpper ∧ ∀ other ∈ rest, other.isAlphanum := by
  cases letters with
  | nil => cases pascal
  | cons c rest =>
    obtain ⟨upper, plain⟩ := Bool.and_eq_true_iff.1 pascal
    exact ⟨c, rest, rfl, upper, List.all_eq_true.1 plain⟩

/-- Whatever a name consists of, the identifier for it is plain. -/
theorem isPlain_pascalIdentifier (name : String) : IsPlain (pascalIdentifier name) := by
  unfold pascalIdentifier
  by_cases pascal : isPascal name.toList
  · rw [if_pos pascal]
    obtain ⟨first, rest, letters, upper, plain⟩ := exists_cons_of_isPascal pascal
    have letter : first.isAlpha := by
      show (first.isUpper || first.isLower) = true
      rw [upper, Bool.true_or]
    refine ⟨?_, first :: rest, ?_, Or.inl letters⟩
    · rintro rfl
      cases letters
    · intro c member
      rcases List.mem_cons.1 member with rfl | inside
      · exact isAlphanum_of_isAlpha letter
      · exact plain c inside
  · rw [if_neg pascal]
    have plain : ∀ c ∈ Words.pascal (spaced name.toList), c.isAlphanum := fun c =>
      Words.isAlphanum_of_mem_pascal (fun _ => isAlphanum_of_mem_spaced)
    unfold IsPlain
    rw [String.toList_ofList, ne_eq, String.ofList_eq_empty_iff]
    rcases guardStart_cases (Words.pascal (spaced name.toList)) with guarded | ⟨same, nonempty⟩
    · rw [guarded]
      exact ⟨List.cons_ne_nil _ _, _, plain, Or.inr rfl⟩
    · rw [same]
      exact ⟨nonempty, _, plain, Or.inl rfl⟩

theorem isWordChar_of_mem_typeName {schema : String} {c : Char}
    (member : c ∈ (typeName schema).toList) : Code.isWordChar c :=
  (isPlain_pascalIdentifier schema).isWordChar member

theorem isWordChar_of_mem_enumTypeName {schema property : String} {c : Char}
    (member : c ∈ (enumTypeName schema property).toList) : Code.isWordChar c := by
  rw [enumTypeName, String.toList_ofList] at member
  exact isWordChar_of_isAlphanum
    (Words.isAlphanum_of_mem_pascal (fun _ => isAlphanum_of_mem_spaced) member)

/-- A camelCase identifier begins with a lower-case letter or an underscore. -/
theorem camelIdentifier_start (name : String) :
    ∃ c rest, (camelIdentifier name).toList = c :: rest ∧ (c.isLower ∨ c = '_') := by
  rw [camelIdentifier, String.toList_ofList]
  cases letters : spaced name.toList with
  | nil => exact ⟨'_', [], rfl, Or.inr rfl⟩
  | cons c rest =>
    have plain := isAlphanum_of_spaced_eq_cons letters
    obtain ⟨word, words, split⟩ := Words.split_cons rest (ne_space_of_isAlphanum plain)
    have camel : Words.camel (c :: rest) =
        c.toLower :: (Words.lower word ++ words.flatMap Words.capitalize) := by
      rw [Words.camel, split]
      rfl
    rw [camel, guardStart]
    by_cases digit : c.toLower.isDigit
    · rw [if_pos digit]
      exact ⟨'_', _, rfl, Or.inr rfl⟩
    · rw [if_neg digit]
      exact ⟨_, _, rfl, Or.inl ((toLower_start plain).resolve_right digit)⟩

/-- A PascalCase identifier begins with a capital letter or an underscore. -/
theorem pascalIdentifier_start (name : String) :
    ∃ c rest, (pascalIdentifier name).toList = c :: rest ∧ (c.isUpper ∨ c = '_') := by
  unfold pascalIdentifier
  by_cases pascal : isPascal name.toList
  · rw [if_pos pascal]
    obtain ⟨c, rest, letters, upper, -⟩ := exists_cons_of_isPascal pascal
    exact ⟨c, rest, letters, Or.inl upper⟩
  · rw [if_neg pascal, String.toList_ofList]
    cases letters : spaced name.toList with
    | nil => exact ⟨'_', [], rfl, Or.inr rfl⟩
    | cons c rest =>
      have plain := isAlphanum_of_spaced_eq_cons letters
      obtain ⟨word, words, split⟩ := Words.split_cons rest (ne_space_of_isAlphanum plain)
      have pascal : Words.pascal (c :: rest) =
          c.toUpper :: (Words.lower word ++ words.flatMap Words.capitalize) := by
        rw [Words.pascal, split]
        rfl
      rw [pascal, guardStart]
      by_cases digit : c.toUpper.isDigit
      · rw [if_pos digit]
        exact ⟨'_', _, rfl, Or.inr rfl⟩
      · rw [if_neg digit]
        exact ⟨_, _, rfl, Or.inl ((toUpper_start plain).resolve_right digit)⟩

theorem isWordChar_of_mem_enumConstantName {schema property : String} {c : Char}
    (member : c ∈ (enumConstantName schema property).toList) : Code.isWordChar c := by
  rw [enumConstantName, String.toList_append, List.mem_append] at member
  rcases member with member | member
  · exact isWordChar_of_mem_camelIdentifier member
  · have letters : "Options".toList.all Code.isWordChar = true := by decide
    exact List.all_eq_true.mp letters c member

/-- The constant of an enum begins with a lower-case letter or an underscore. -/
theorem enumConstantName_start (schema property : String) :
    ∃ c rest, (enumConstantName schema property).toList = c :: rest ∧ (c.isLower ∨ c = '_') := by
  obtain ⟨c, rest, camel, start⟩ := camelIdentifier_start (joined schema property)
  refine ⟨c, rest ++ "Options".toList, ?_, start⟩
  rw [enumConstantName, String.toList_append, camel]
  rfl

/-- The type of an enum begins with a capital letter or a digit, if it is not empty. -/
theorem enumTypeName_start {schema property : String} {c : Char} {rest : List Char}
    (h : (enumTypeName schema property).toList = c :: rest) : c.isUpper ∨ c.isDigit := by
  rw [enumTypeName, String.toList_ofList] at h
  cases letters : spaced (joined schema property).toList with
  | nil =>
    rw [letters] at h
    cases h
  | cons d rest' =>
    have plain := isAlphanum_of_spaced_eq_cons letters
    obtain ⟨word, words, split⟩ := Words.split_cons rest' (ne_space_of_isAlphanum plain)
    rw [letters, Words.pascal, split] at h
    cases h
    exact toUpper_start plain

end Naming

end ZodModules
