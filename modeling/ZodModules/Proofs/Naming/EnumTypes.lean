import ZodModules.Proofs.Naming.Characters
import ZodModules.Proofs.Model.Numbering
import Mathlib.Data.List.DropRight

/-!
# Types of enum constants

The constant of an enum tells the type that goes with it and the other way round: both are the same
words, one in camelCase with an ending that no number runs into, the other in PascalCase. A type has
no such ending.
-/

namespace ZodModules

theorem toUpper_toLower {c : Char} (h : c.isAlphanum) : c.toLower.toUpper = c.toUpper :=
  forall_isAlphanum (P := fun c => c.toLower.toUpper = c.toUpper) (by decide +kernel) h

theorem toLower_toUpper {c : Char} (h : c.isAlphanum) : c.toUpper.toLower = c.toLower :=
  forall_isAlphanum (P := fun c => c.toUpper.toLower = c.toLower) (by decide +kernel) h

namespace Model

theorem numbered_left_injective {name name' : String} {number : Nat}
    (same : numbered name number = numbered name' number) : name = name' := by
  by_cases one : number = 1
  · rwa [one, numbered_one, numbered_one] at same
  · rw [numbered_of_ne_one name one, numbered_of_ne_one name' one] at same
    exact (String.append_left_inj _).1 same

/-- Without its last digits a numbered name is the name, if that ends with no digit. -/
theorem rdropWhile_numbered {name : String}
    (ending : name.toList.rdropWhile Char.isDigit = name.toList) (number : Nat) :
    (numbered name number).toList.rdropWhile Char.isDigit = name.toList := by
  obtain ⟨digits, letters, all, -⟩ := exists_digits name number
  have digit : ∀ d ∈ digits.reverse, d.isDigit := fun d member => all d (List.mem_reverse.1 member)
  rw [letters, List.rdropWhile, List.reverse_append, List.dropWhile_append_of_pos digit]
  exact ending

/-- A name that ends with no digit can be told from the numbered name, and so can the number. -/
theorem numbered_injective_of_ending {name name' : String} {number number' : Nat}
    (ending : name.toList.rdropWhile Char.isDigit = name.toList)
    (ending' : name'.toList.rdropWhile Char.isDigit = name'.toList)
    (same : numbered name number = numbered name' number') : name = name' ∧ number = number' := by
  have names : name = name' := by
    rw [← String.toList_inj, ← rdropWhile_numbered ending number,
      ← rdropWhile_numbered ending' number', same]
  exact ⟨names, numbered_injective name' (names ▸ same)⟩

end Model

namespace Words

/-- PascalCase and camelCase differ in the case of the first letter only. -/
theorem pascal_and_camel {text : List Char} (start : ∀ c rest, text = c :: rest → c.isAlphanum) :
    pascal text = (camel text).modifyHead Char.toUpper ∧
      camel text = (pascal text).modifyHead Char.toLower := by
  cases text with
  | nil => exact ⟨rfl, rfl⟩
  | cons c rest =>
    have letter := start c rest rfl
    obtain ⟨word, words, apart⟩ := split_cons rest (ne_space_of_isAlphanum letter)
    have pascals : pascal (c :: rest) =
        c.toUpper :: (lower word ++ words.flatMap capitalize) := by
      rw [pascal, apart]
      rfl
    have camels : camel (c :: rest) =
        c.toLower :: (lower word ++ words.flatMap capitalize) := by
      rw [camel, apart]
      rfl
    rw [pascals, camels, List.modifyHead_cons, List.modifyHead_cons, toUpper_toLower letter,
      toLower_toUpper letter]
    exact ⟨rfl, rfl⟩

theorem pascal_eq_iff {text text' : List Char}
    (start : ∀ c rest, text = c :: rest → c.isAlphanum)
    (start' : ∀ c rest, text' = c :: rest → c.isAlphanum) :
    pascal text = pascal text' ↔ camel text = camel text' := by
  constructor
  · intro same
    rw [(pascal_and_camel start).2, (pascal_and_camel start').2, same]
  · intro same
    rw [(pascal_and_camel start).1, (pascal_and_camel start').1, same]

end Words

namespace Naming

/-- The guard can be told from the text, if that has no underscore of its own. -/
theorem guardStart_injective {first second : List Char} (plain : '_' ∉ first)
    (plain' : '_' ∉ second) (same : guardStart first = guardStart second) : first = second := by
  rcases guardStart_cases first with guarded | ⟨bare, -⟩
  · rcases guardStart_cases second with guarded' | ⟨bare', -⟩
    · rw [guarded, guarded'] at same
      exact List.tail_eq_of_cons_eq same
    · rw [guarded, bare'] at same
      exact absurd (same ▸ List.mem_cons_self) plain'
  · rcases guardStart_cases second with guarded' | ⟨bare', -⟩
    · rw [bare, guarded'] at same
      exact absurd (same ▸ List.mem_cons_self) plain
    · rwa [bare, bare'] at same

theorem underscore_not_mem_camel (name : List Char) : '_' ∉ Words.camel (spaced name) := by
  intro member
  have letter := Words.isAlphanum_of_mem_camel (fun _ => isAlphanum_of_mem_spaced) member
  exact absurd letter (by decide)

/-- Enums have one type just if they have one constant. -/
theorem enumTypeName_eq_iff {schema property schema' property' : String} :
    enumTypeName schema property = enumTypeName schema' property' ↔
      enumConstantName schema property = enumConstantName schema' property' := by
  have start (name : List Char) (c : Char) (rest : List Char) (begins : spaced name = c :: rest) :
      c.isAlphanum := isAlphanum_of_spaced_eq_cons begins
  have words := Words.pascal_eq_iff (start (joined schema property).toList)
    (start (joined schema' property').toList)
  unfold enumTypeName enumConstantName camelIdentifier
  rw [String.ofList_inj, words]
  constructor
  · intro same
    rw [same]
  · intro same
    have guarded := String.ofList_inj.1 ((String.append_left_inj _).1 same)
    exact guardStart_injective (underscore_not_mem_camel _) (underscore_not_mem_camel _) guarded

/-- The constant of an enum ends with no digit. -/
theorem rdropWhile_enumConstantName (schema property : String) :
    (enumConstantName schema property).toList.rdropWhile Char.isDigit =
      (enumConstantName schema property).toList := by
  have letters : (enumConstantName schema property).toList =
      ((camelIdentifier (joined schema property)).toList ++ "Option".toList) ++ ['s'] := by
    rw [enumConstantName, String.toList_append, List.append_assoc]
    rfl
  rw [letters]
  exact List.rdropWhile_concat_neg _ _ _ (by decide)

/-- A numbered constant of an enum tells the constant and the number. -/
theorem enumConstantName_of_numbered {schema property schema' property' : String}
    {number number' : Nat}
    (same : Model.numbered (enumConstantName schema property) number =
      Model.numbered (enumConstantName schema' property') number') :
    enumConstantName schema property = enumConstantName schema' property' ∧ number = number' :=
  Model.numbered_injective_of_ending (rdropWhile_enumConstantName _ _)
    (rdropWhile_enumConstantName _ _) same

end Naming

end ZodModules
