import ZodModules.Json.Basic
import ZodModules.Data.NameMap
import Mathlib.Data.List.Forall2

/-!
# Values up to the order of keys

Two values that differ at most in the order in which their objects list their keys. Looked up by key
and by index they are the same all the way down.
-/

namespace ZodModules

namespace Json

/-- In no object of a value a key occurs twice. -/
inductive Distinct : Json → Prop where
  | null : Distinct .null
  | bool {value : Bool} : Distinct (.bool value)
  | number {value : Number} : Distinct (.number value)
  | string {text : String} : Distinct (.string text)
  | array {items : List Json} (each : ∀ item ∈ items, Distinct item) : Distinct (.array items)
  | object {members : List (String × Json)} (distinct : (members.map Prod.fst).Nodup)
      (each : ∀ member ∈ members, Distinct member.2) : Distinct (.object members)

attribute [simp] Distinct.null Distinct.bool Distinct.number Distinct.string

@[simp]
theorem distinct_array_iff {items : List Json} :
    Distinct (.array items) ↔ ∀ item ∈ items, Distinct item := by
  constructor
  · intro h
    cases h with
    | array each => exact each
  · exact .array

@[simp]
theorem distinct_object_iff {members : List (String × Json)} :
    Distinct (.object members) ↔
      (members.map Prod.fst).Nodup ∧ ∀ member ∈ members, Distinct member.2 := by
  constructor
  · intro h
    cases h with
    | object distinct each => exact ⟨distinct, each⟩
  · exact fun h => .object h.1 h.2

theorem Distinct.of_get? {value part : Json} {key : String} (distinct : value.Distinct)
    (found : value.get? key = some part) : part.Distinct := by
  cases value with
  | object members =>
    exact (distinct_object_iff.1 distinct).2 (key, part) (mem_of_lookup found)
  | _ => cases found

/-- A value is another one up to the order of keys. In an object no key occurs twice. -/
inductive Reordered : Json → Json → Prop where
  | null : Reordered .null .null
  | bool {value : Bool} : Reordered (.bool value) (.bool value)
  | number {value : Number} : Reordered (.number value) (.number value)
  | string {text : String} : Reordered (.string text) (.string text)
  | array {items items' : List Json} (length : items.length = items'.length)
      (each : ∀ (index : Nat) item item', items[index]? = some item → items'[index]? = some item' →
        Reordered item item') : Reordered (.array items) (.array items')
  | object {members members' : List (String × Json)} (distinct : (members.map Prod.fst).Nodup)
      (keys : (members.map Prod.fst).Perm (members'.map Prod.fst))
      (each : ∀ key value value', (key, value) ∈ members → (key, value') ∈ members' →
        Reordered value value') : Reordered (.object members) (.object members')

namespace Reordered

variable {a b : Json}

theorem symm (h : Reordered a b) : Reordered b a := by
  induction h with
  | null => exact .null
  | bool => exact .bool
  | number => exact .number
  | string => exact .string
  | array length each ih =>
    exact .array length.symm fun index item item' found found' =>
      ih index item' item found' found
  | object distinct keys each ih =>
    refine .object (keys.nodup_iff.1 distinct) keys.symm ?_
    intro key value value' declared declared'
    exact ih key value' value declared' declared

/-- A value without repeated keys is itself up to the order of keys. -/
theorem refl (h : Distinct a) : Reordered a a := by
  induction h with
  | null => exact .null
  | bool => exact .bool
  | number => exact .number
  | string => exact .string
  | array each ih =>
    refine .array rfl fun index item item' found found' => ?_
    rw [found, Option.some.injEq] at found'
    exact found' ▸ ih item (List.mem_of_getElem? found)
  | object distinct each ih =>
    refine .object distinct (List.Perm.refl _) fun key value value' declared declared' => ?_
    have found := (NameMap.lookup_eq_some_iff distinct).2 declared
    rw [(NameMap.lookup_eq_some_iff distinct).2 declared', Option.some.injEq] at found
    exact found ▸ ih (key, value') declared'

/-- An object is any other one with the same members up to the order of keys. -/
theorem of_perm {members members' : List (String × Json)} (h : Distinct (.object members))
    (perm : members.Perm members') : Reordered (.object members) (.object members') := by
  cases refl h with
  | object distinct keys each =>
    refine .object distinct (perm.map _) fun key value value' declared declared' => ?_
    exact each key value value' declared (perm.mem_iff.2 declared')

/-- A member has its counterpart under the same key. -/
theorem exists_member {members members' : List (String × Json)} {key : String} {value : Json}
    (h : Reordered (.object members) (.object members')) (declared : (key, value) ∈ members) :
    ∃ value', (key, value') ∈ members' ∧ Reordered value value' := by
  cases h with
  | object distinct keys each =>
    have listed : key ∈ members'.map Prod.fst := keys.mem_iff.1 (List.mem_map_of_mem declared)
    obtain ⟨⟨key', value'⟩, declared', rfl⟩ := List.mem_map.1 listed
    exact ⟨value', declared', each _ value value' declared declared'⟩

theorem nodup_keys {members members' : List (String × Json)}
    (h : Reordered (.object members) (.object members')) : (members.map Prod.fst).Nodup := by
  cases h with
  | object distinct keys each => exact distinct

/-- What is found under a key is found in the other value, too. -/
theorem get? {key : String} {value : Json} (h : Reordered a b) (found : a.get? key = some value) :
    ∃ value', b.get? key = some value' ∧ Reordered value value' := by
  cases a with
  | object members =>
    cases b with
    | object members' =>
      obtain ⟨value', declared', same⟩ := h.exists_member (mem_of_lookup found)
      exact ⟨value', (NameMap.lookup_eq_some_iff h.symm.nodup_keys).2 declared', same⟩
    | _ => cases h
  | _ => cases found

theorem get?_eq_none_iff (h : Reordered a b) {key : String} :
    a.get? key = none ↔ b.get? key = none := by
  have lead {a b : Json} (h : Reordered a b) (missing : b.get? key = none) : a.get? key = none := by
    cases found : a.get? key with
    | none => rfl
    | some value =>
      obtain ⟨value', found', -⟩ := h.get? found
      rw [missing] at found'
      cases found'
  exact ⟨lead h.symm, lead h⟩

/-- A key is missing in both values, or found in both. -/
theorem get?_cases (h : Reordered a b) (key : String) :
    (a.get? key = none ∧ b.get? key = none) ∨
      ∃ value value', a.get? key = some value ∧ b.get? key = some value' ∧
        Reordered value value' := by
  cases found : a.get? key with
  | none => exact Or.inl ⟨rfl, h.get?_eq_none_iff.1 found⟩
  | some value =>
    obtain ⟨value', found', same⟩ := h.get? found
    exact Or.inr ⟨value, value', rfl, found', same⟩

theorem isSome_get? (h : Reordered a b) (key : String) :
    (a.get? key).isSome = (b.get? key).isSome := by
  rcases h.get?_cases key with ⟨missing, missing'⟩ | ⟨value, value', found, found', -⟩
  · rw [missing, missing']
  · rw [found, found']
    rfl

theorem string?_eq (h : Reordered a b) : a.string? = b.string? := by
  cases h <;> rfl

theorem isSome_members? (h : Reordered a b) : a.members?.isSome = b.members?.isSome := by
  cases h <;> rfl

/-- The string under a key does not depend on the order of keys. -/
theorem string?_get? (h : Reordered a b) (key : String) :
    (a.get? key).bind string? = (b.get? key).bind string? := by
  rcases h.get?_cases key with ⟨missing, missing'⟩ | ⟨value, value', found, found', same⟩
  · rw [missing, missing']
  · rw [found, found']
    exact same.string?_eq

/-- The items of an array, one by one. -/
theorem forall₂_items {items items' : List Json} (h : Reordered (.array items) (.array items')) :
    List.Forall₂ Reordered items items' := by
  cases h with
  | array length each =>
    refine List.forall₂_iff_get.2 ⟨length, fun index bound bound' => ?_⟩
    exact each index _ _ (List.getElem?_eq_getElem bound) (List.getElem?_eq_getElem bound')

/-- An item has its counterpart at the same place. -/
theorem exists_item {items items' : List Json} {index : Nat} {item : Json}
    (h : Reordered (.array items) (.array items')) (found : items[index]? = some item) :
    ∃ item', items'[index]? = some item' ∧ Reordered item item' := by
  cases h with
  | array length each =>
    have bound : index < items'.length := by
      have inside := (List.getElem?_eq_some_iff.1 found).1
      omega
    have found' := List.getElem?_eq_getElem bound
    exact ⟨_, found', each index item _ found found'⟩

/-- The strings among some items do not depend on the order of keys. -/
theorem filterMap_string? {items items' : List Json} (h : List.Forall₂ Reordered items items') :
    items.filterMap string? = items'.filterMap string? := by
  induction h with
  | nil => rfl
  | cons first _ ih => rw [List.filterMap_cons, List.filterMap_cons, first.string?_eq, ih]

end Reordered

end Json

end ZodModules
