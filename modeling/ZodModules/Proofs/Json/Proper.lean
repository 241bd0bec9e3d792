import ZodModules.Proofs.Json.KeyOrder

/-!
# Proper values

The values that documents hold: a number that is kept as an integer is one that can be, and in no
object a key occurs twice.
-/

namespace ZodModules.Json

/-- A value as documents hold them: its integers keep their exact values, and in no object a key
occurs twice. -/
inductive IsProper : Json → Prop where
  | null : IsProper .null
  | bool {value : Bool} : IsProper (.bool value)
  | integer {value : Int} (exactInteger : Number.isExact value) :
      IsProper (.number (.integer value))
  | float {value : Binary64} : IsProper (.number (.float value))
  | string {text : String} : IsProper (.string text)
  | array {items : List Json} (each : ∀ item ∈ items, IsProper item) : IsProper (.array items)
  | object {members : List (String × Json)} (distinct : (members.map Prod.fst).Nodup)
      (each : ∀ member ∈ members, IsProper member.2) : IsProper (.object members)

attribute [simp] IsProper.null IsProper.bool IsProper.float IsProper.string

@[simp]
theorem isProper_array_iff {items : List Json} :
    IsProper (.array items) ↔ ∀ item ∈ items, IsProper item := by
  constructor
  · intro h
    cases h with
    | array each => exact each
  · exact .array

@[simp]
theorem isProper_object_iff {members : List (String × Json)} :
    IsProper (.object members) ↔
      (members.map Prod.fst).Nodup ∧ ∀ member ∈ members, IsProper member.2 := by
  constructor
  · intro h
    cases h with
    | object distinct each => exact ⟨distinct, each⟩
  · exact fun h => .object h.1 h.2

namespace IsProper

variable {value found : Json} {key : String} {n : Nat}

theorem distinct (proper : value.IsProper) : value.Distinct := by
  induction proper with
  | null => exact .null
  | bool => exact .bool
  | integer _ => exact .number
  | float => exact .number
  | string => exact .string
  | array _ ih => exact .array ih
  | object distinct _ ih => exact .object distinct ih

theorem of_get? (proper : value.IsProper) (h : value.get? key = some found) : found.IsProper := by
  cases value with
  | object members => exact (isProper_object_iff.1 proper).2 _ (mem_of_lookup h)
  | _ => cases h

theorem isExact_of_nat? (proper : value.IsProper) (h : value.nat? = some n) : Number.isExact n := by
  cases proper with
  | @integer m exactInteger =>
    obtain ⟨nonneg, rfl⟩ : 0 ≤ m ∧ m.toNat = n := by
      simpa [nat?, Number.toNat?] using h
    rwa [Int.toNat_of_nonneg nonneg]
  | _ => cases h

/-- A natural number in a member of an object keeps its exact value. -/
theorem isExact_of_member (proper : value.IsProper) (h : (value.get? key).bind nat? = some n) :
    Number.isExact n := by
  obtain ⟨found, member, read⟩ := Option.bind_eq_some_iff.1 h
  exact (proper.of_get? member).isExact_of_nat? read

end IsProper

end ZodModules.Json
