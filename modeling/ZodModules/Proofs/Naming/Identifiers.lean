import ZodModules.Proofs.Naming.Characters
import ZodModules.Proofs.Model.Numbering

/-!
# Names that are identifiers

The names of types, validators, classes and constants of enums are identifiers, whatever schemas and
properties are called. The type of an enum has no guarded start: it is an identifier only if the
first letter or digit of what it is named after is a letter.
-/

namespace ZodModules.Naming

theorem isIdentifier_iff {name : String} :
    isIdentifier name ↔ ∃ c rest, name.toList = c :: rest ∧ isIdentifierStart c ∧
      ∀ d ∈ rest, isIdentifierChar d := by
  unfold isIdentifier
  cases name.toList with
  | nil => simp
  | cons c rest => simp

theorem isIdentifierStart_of_isAlpha {c : Char} (letter : c.isAlpha) : isIdentifierStart c := by
  unfold isIdentifierStart
  rw [letter, Bool.true_or, Bool.true_or]

theorem isAlpha_of_isUpper {c : Char} (upper : c.isUpper) : c.isAlpha := by
  show (c.isUpper || c.isLower) = true
  rw [upper, Bool.true_or]

theorem isAlpha_of_isLower {c : Char} (lower : c.isLower) : c.isAlpha := by
  show (c.isUpper || c.isLower) = true
  rw [lower, Bool.or_true]

/-- A letter or digit begins an identifier exactly if it is a letter. -/
theorem isIdentifierStart_iff_of_isAlphanum {c : Char} (plain : c.isAlphanum) :
    isIdentifierStart c ↔ c.isAlpha :=
  forall_isAlphanum (P := fun c => isIdentifierStart c ↔ c.isAlpha) (by decide +kernel) plain

theorem isAlpha_toUpper {c : Char} (plain : c.isAlphanum) : c.toUpper.isAlpha ↔ c.isAlpha :=
  forall_isAlphanum (P := fun c => c.toUpper.isAlpha ↔ c.isAlpha) (by decide +kernel) plain

/-- What begins and goes on like an identifier is one. -/
theorem isIdentifier_of_start {name : String} {c : Char} {rest : List Char}
    (letters : name.toList = c :: rest) (start : isIdentifierStart c)
    (word : ∀ d ∈ name.toList, isIdentifierChar d) : isIdentifier name :=
  isIdentifier_iff.2 ⟨c, rest, letters, start, fun d member =>
    word d (letters ▸ List.mem_cons_of_mem _ member)⟩

theorem isIdentifier_append {name suffix : String} (identifier : isIdentifier name)
    (word : ∀ c ∈ suffix.toList, isIdentifierChar c) : isIdentifier (name ++ suffix) := by
  obtain ⟨c, rest, letters, start, others⟩ := isIdentifier_iff.1 identifier
  refine isIdentifier_iff.2 ⟨c, rest ++ suffix.toList, ?_, start, ?_⟩
  · rw [String.toList_append, letters, List.cons_append]
  · intro d member
    rcases List.mem_append.1 member with inside | added
    · exact others d inside
    · exact word d added

/-- A number makes no identifier of a name and spoils none. -/
theorem isIdentifier_numbered_iff {name : String} {number : Nat} :
    isIdentifier (Model.numbered name number) ↔ isIdentifier name := by
  obtain ⟨digits, letters, all, -⟩ := Model.exists_digits name number
  have word : ∀ d ∈ digits, isIdentifierChar d := fun d member =>
    isWordChar_of_isAlphanum (isAlphanum_of_isDigit (all d member))
  rw [isIdentifier_iff, isIdentifier_iff, letters]
  cases own : name.toList with
  | nil =>
    -- Only digits are left, and none of them begins an identifier.
    constructor
    · rintro ⟨c, rest, whole, start, -⟩
      have digit : c.isDigit := all c (by
        rw [List.nil_append] at whole
        rw [whole]
        exact List.mem_cons_self)
      rw [isIdentifierStart_iff_of_isAlphanum (isAlphanum_of_isDigit digit)] at start
      change (c.isUpper || c.isLower) = true at start
      rw [Bool.or_eq_true, isUpper_iff, isLower_iff] at start
      rw [isDigit_iff] at digit
      omega
    · rintro ⟨c, rest, impossible, -⟩
      cases impossible
  | cons first others =>
    constructor
    · rintro ⟨c, rest, whole, start, plain⟩
      obtain ⟨rfl, rfl⟩ := List.cons.inj whole
      exact ⟨_, others, rfl, start, fun d member => plain d (List.mem_append_left _ member)⟩
    · rintro ⟨c, rest, whole, start, plain⟩
      obtain ⟨rfl, rfl⟩ := List.cons.inj whole
      refine ⟨_, others ++ digits, rfl, start, fun d member => ?_⟩
      rcases List.mem_append.1 member with inside | added
      · exact plain d inside
      · exact word d added

theorem isIdentifier_typeName (schema : String) : isIdentifier (typeName schema) := by
  obtain ⟨c, rest, letters, start⟩ := pascalIdentifier_start schema
  refine isIdentifier_of_start letters ?_ fun d => isWordChar_of_mem_typeName
  rcases start with upper | rfl
  · exact isIdentifierStart_of_isAlpha (isAlpha_of_isUpper upper)
  · decide

theorem isIdentifier_validatorName (schema : String) {suffix : String}
    (word : ∀ c ∈ suffix.toList, isIdentifierChar c) : isIdentifier (validatorName schema suffix) :=
  isIdentifier_append (isIdentifier_typeName schema) word

theorem isIdentifier_dtoName (schema : String) : isIdentifier (dtoName schema) := by
  have word : "Dto".toList.all isIdentifierChar = true := by decide
  exact isIdentifier_append (isIdentifier_typeName schema) (List.all_eq_true.1 word)

theorem isIdentifier_enumConstantName (schema property : String) :
    isIdentifier (enumConstantName schema property) := by
  obtain ⟨c, rest, letters, start⟩ := enumConstantName_start schema property
  refine isIdentifier_of_start letters ?_ fun d => isWordChar_of_mem_enumConstantName
  rcases start with lower | rfl
  · exact isIdentifierStart_of_isAlpha (isAlpha_of_isLower lower)
  · decide

/-- Whether the first ASCII letter or digit of a name is a letter; a name without any has none. -/
def beginsWithLetter (name : String) : Bool :=
  (name.toList.find? Char.isAlphanum).any Char.isAlpha

theorem rdropWhile_spaces_cons {c : Char} (rest : List Char) (other : c ≠ ' ') :
    ((c :: rest).reverse.dropWhile (· == ' ')).reverse.head? = some c := by
  rw [List.reverse_cons, List.dropWhile_append]
  have kept : [c].dropWhile (· == ' ') = [c] := List.dropWhile_cons_of_neg (by simpa using other)
  split
  · rw [kept]
    rfl
  · rw [List.reverse_append]
    rfl

/-- What is left of a name begins with its first letter or digit. -/
theorem head?_spaced (name : List Char) : (spaced name).head? = name.find? Char.isAlphanum := by
  induction name with
  | nil => rfl
  | cons first rest ih =>
    by_cases plain : first.isAlphanum
    · have other := ne_space_of_isAlphanum plain
      have begins : ((first :: rest).map fun c => if c.isAlphanum then c else ' ').dropWhile
          (· == ' ') = first :: rest.map fun c => if c.isAlphanum then c else ' ' := by
        rw [List.map_cons, if_pos plain, List.dropWhile_cons_of_neg (by simpa using other)]
      rw [List.find?_cons_of_pos plain]
      simp only [spaced, begins]
      exact rdropWhile_spaces_cons _ other
    · rw [List.find?_cons_of_neg plain, ← ih]
      simp only [spaced, List.map_cons, if_neg plain, beq_self_eq_true, List.dropWhile_cons_of_pos]

/-- The type of an enum is an identifier exactly if the first letter or digit of what it is named
after is a letter. -/
theorem isIdentifier_enumTypeName_iff (schema property : String) :
    isIdentifier (enumTypeName schema property) ↔ beginsWithLetter (joined schema property) := by
  have word : ∀ d ∈ (enumTypeName schema property).toList, isIdentifierChar d :=
    fun d => isWordChar_of_mem_enumTypeName
  unfold beginsWithLetter
  rw [← head?_spaced]
  cases letters : spaced (joined schema property).toList with
  | nil =>
    have empty : (enumTypeName schema property).toList = [] := by
      rw [enumTypeName, letters]
      rfl
    rw [isIdentifier_iff, empty]
    simp
  | cons c rest =>
    have plain := isAlphanum_of_spaced_eq_cons letters
    obtain ⟨first, others, split⟩ := Words.split_cons rest (ne_space_of_isAlphanum plain)
    have begins : (enumTypeName schema property).toList =
        c.toUpper :: (Words.lower first ++ others.flatMap Words.capitalize) := by
      rw [enumTypeName, letters, String.toList_ofList, Words.pascal, split]
      rfl
    have upper := isIdentifierStart_iff_of_isAlphanum (isAlphanum_toUpper plain)
    rw [List.head?_cons, Option.any_some, ← isAlpha_toUpper plain, ← upper]
    constructor
    · intro identifier
      obtain ⟨d, tail, whole, start, -⟩ := isIdentifier_iff.1 identifier
      rw [begins] at whole
      obtain ⟨rfl, -⟩ := List.cons.inj whole
      exact start
    · intro start
      exact isIdentifier_of_start begins start word

end ZodModules.Naming
