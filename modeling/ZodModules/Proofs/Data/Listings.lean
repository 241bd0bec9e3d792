import ZodModules.Data.NameMap
import Mathlib.Data.List.Induction
import Mathlib.Data.List.Nodup

/-!
# Listings

Lists without repetition, and what a sorted listing is determined by: a set by its members, a map by
its look-ups.
-/

namespace ZodModules

namespace Listing

theorem eraseDups_sublist {α : Type} [BEq α] (l : List α) : l.eraseDups.Sublist l := by
  cases l with
  | nil => simp
  | cons a rest =>
    rw [List.eraseDups_cons]
    exact ((eraseDups_sublist (rest.filter fun b => !b == a)).trans List.filter_sublist).cons_cons a
termination_by l.length
decreasing_by exact Nat.lt_succ_of_le (List.length_filter_le _ rest)

theorem nodup_eraseDups {α : Type} [BEq α] [LawfulBEq α] (l : List α) : l.eraseDups.Nodup := by
  cases l with
  | nil => simp
  | cons a rest =>
    rw [List.eraseDups_cons, List.nodup_cons]
    refine ⟨?_, nodup_eraseDups (rest.filter fun b => !b == a)⟩
    intro again
    have kept := List.mem_filter.1 (List.mem_eraseDups.1 again)
    simp at kept
termination_by l.length
decreasing_by exact Nat.lt_succ_of_le (List.length_filter_le _ rest)

theorem eraseDups_concat {α : Type} [DecidableEq α] (l : List α) (last : α) :
    (l ++ [last]).eraseDups = if last ∈ l then l.eraseDups else l.eraseDups ++ [last] := by
  rw [List.eraseDups_append]
  by_cases present : last ∈ l <;> simp [present, List.removeAll, List.eraseDups_cons]

/-- To select from a list and to leave out its repetitions can be done in either order. -/
theorem eraseDups_filter {α : Type} [DecidableEq α] (keep : α → Bool) (l : List α) :
    (l.filter keep).eraseDups = l.eraseDups.filter keep := by
  induction l using List.reverseRecOn with
  | nil => rfl
  | append_singleton l last ih =>
    rw [List.filter_append, eraseDups_concat]
    by_cases kept : keep last
    · rw [List.filter_singleton, kept, cond_true, eraseDups_concat, ih]
      by_cases present : last ∈ l <;> simp [kept, present]
    · rw [List.filter_singleton, Bool.eq_false_iff.2 kept, cond_false, List.append_nil, ih]
      by_cases present : last ∈ l <;> simp [kept, present]

theorem eraseDups_of_nodup {α : Type} [DecidableEq α] {l : List α} (nodup : l.Nodup) :
    l.eraseDups = l := by
  induction l using List.reverseRecOn with
  | nil => rfl
  | append_singleton l last ih =>
    obtain ⟨nodup, -, apart⟩ := List.nodup_append.1 nodup
    have fresh : last ∉ l := fun present => apart last present last List.mem_cons_self rfl
    rw [eraseDups_concat, if_neg fresh, ih nodup]

/-- What a list brings to another one depends on nothing but its own first occurrences. -/
theorem eraseDups_append_congr {α : Type} [DecidableEq α] (l : List α) {m n : List α}
    (same : m.eraseDups = n.eraseDups) : (l ++ m).eraseDups = (l ++ n).eraseDups := by
  rw [List.eraseDups_append, List.eraseDups_append, List.removeAll, List.removeAll, eraseDups_filter,
    eraseDups_filter, same]

theorem eraseDups_append_self {α : Type} [DecidableEq α] (l : List α) :
    (l ++ l).eraseDups = l.eraseDups := by
  have nothing : l.removeAll l = [] := List.filter_eq_nil_iff.2 fun a member => by simp [member]
  rw [List.eraseDups_append, nothing, List.eraseDups_nil, List.append_nil]

/-- A list by strictly increasing names is determined by its members. -/
theorem eq_of_mem_iff {α : Type} {name : α → String} {l l' : List α}
    (sorted : l.Pairwise (name · < name ·)) (sorted' : l'.Pairwise (name · < name ·))
    (same : ∀ a, a ∈ l ↔ a ∈ l') : l = l' := by
  have nodup {l : List α} (sorted : l.Pairwise (name · < name ·)) : l.Nodup := by
    refine sorted.imp ?_
    rintro a b less rfl
    exact String.lt_irrefl _ less
  have perm : l.Perm l' := (List.perm_ext_iff_of_nodup (nodup sorted) (nodup sorted')).2 same
  exact perm.eq_of_pairwise (fun _ _ _ _ less more => absurd more (String.lt_asymm less)) sorted
    sorted'

theorem lookup_eq_none {α : Type} {name : String} {l : List (String × α)}
    (absent : name ∉ l.map Prod.fst) : l.lookup name = none := by
  rw [List.lookup_eq_none_iff]
  intro other member
  have different : name ≠ other.1 := fun same => absent (List.mem_map.2 ⟨other, member, same.symm⟩)
  simpa using different

/-- The names that some members have are distinct just if each of them is the only one to have its
name. -/
theorem nodup_filterMap_iff {α β : Type} [DecidableEq β] {name? : α → Option β} {l : List α} :
    (l.filterMap name?).Nodup ↔
      ∀ a ∈ l, ∀ name, name? a = some name → l.filter (name? · == some name) = [a] := by
  have count (name : β) :
      (l.filterMap name?).count name = (l.filter (name? · == some name)).length := by
    rw [List.count_filterMap, List.countP_eq_length_filter]
  constructor
  · intro nodup a member name has
    have one := List.count_eq_one_of_mem nodup (List.mem_filterMap.2 ⟨a, member, has⟩)
    obtain ⟨only, alone⟩ := List.length_eq_one_iff.1 ((count name).symm.trans one)
    have kept : a ∈ l.filter (name? · == some name) :=
      List.mem_filter.2 ⟨member, beq_iff_eq.2 has⟩
    rw [alone, List.mem_singleton] at kept
    rw [alone, kept]
  · intro alone
    rw [List.nodup_iff_count_le_one]
    intro name
    by_cases member : name ∈ l.filterMap name?
    · obtain ⟨a, inside, has⟩ := List.mem_filterMap.1 member
      rw [count name, alone a inside name has]
      exact Nat.le_refl 1
    · rw [List.count_eq_zero_of_not_mem member]
      exact Nat.zero_le 1

end Listing

/-- A set is determined by its members. -/
theorem NameSet.ext_mem {s t : NameSet} (same : ∀ name, name ∈ s ↔ name ∈ t) : s = t := by
  have listed : s.toList = t.toList := @Listing.eq_of_mem_iff _ id _ _ s.sorted t.sorted same
  cases s
  cases t
  cases listed
  rfl

namespace NameSet

variable {s : NameSet} {name : String}

theorem contains_eq_true_iff : s.contains name = true ↔ name ∈ s := decide_eq_true_iff

theorem contains_eq_false_iff : s.contains name = false ↔ name ∉ s := decide_eq_false_iff_not

theorem insert_of_mem (present : name ∈ s) : s.insert name = s := by
  apply ext_mem
  intro other
  rw [mem_insert]
  exact or_iff_right_of_imp fun same => same ▸ present

theorem erase_insert_of_not_mem (fresh : name ∉ s) : (s.insert name).erase name = s := by
  apply ext_mem
  intro other
  rw [mem_erase, mem_insert]
  constructor
  · rintro ⟨same | member, different⟩
    · exact absurd same different
    · exact member
  · exact fun member => ⟨Or.inr member, fun same => fresh (same ▸ member)⟩

end NameSet

/-- A map is determined by its look-ups. -/
theorem NameMap.ext_get? {α : Type} {m n : NameMap α}
    (same : ∀ name, m.get? name = n.get? name) : m = n := by
  have entries : m.entries = n.entries := by
    refine Listing.eq_of_mem_iff (List.pairwise_map.1 m.sorted) (List.pairwise_map.1 n.sorted) ?_
    rintro ⟨name, value⟩
    rw [mem_entries_iff, mem_entries_iff, same]
  cases m
  cases n
  cases entries
  rfl

theorem NameMap.mapEntries_insert {α β : Type} (f : String → α → β) (m : NameMap α) (name : String)
    (value : α) : (m.insert name value).mapEntries f = (m.mapEntries f).insert name (f name value) := by
  refine ext_get? fun key => ?_
  rw [get?_mapEntries, get?_insert, get?_insert, get?_mapEntries]
  by_cases here : key = name
  · rw [if_pos here, if_pos here, here, Option.map_some]
  · rw [if_neg here, if_neg here]

/-- The map of a list whose keys are distinct has its entries. -/
theorem NameMap.get?_ofList {α : Type} {entries : List (String × α)}
    (distinct : (entries.map Prod.fst).Nodup) (name : String) :
    (NameMap.ofList entries).get? name = entries.lookup name := by
  have run (m : NameMap α) :
      (entries.foldl (fun m e => m.insert e.1 e.2) m).get? name =
        (entries.lookup name).or (m.get? name) := by
    induction entries generalizing m with
    | nil => rfl
    | cons entry rest ih =>
      obtain ⟨key, value⟩ := entry
      obtain ⟨fresh, distinct⟩ := List.nodup_cons.1 distinct
      rw [List.foldl_cons, ih distinct, NameMap.get?_insert, List.lookup_cons]
      by_cases here : name = key
      · have absent : rest.lookup name = none := Listing.lookup_eq_none (here ▸ fresh)
        rw [absent, if_pos here, here, beq_self_eq_true]
        rfl
      · have different : (name == key) = false := by simpa using here
        rw [if_neg here, different]
  rw [NameMap.ofList, run, NameMap.get?_empty, Option.or_none]

/-- Under a key of a list its map has one of the values that the list has there. -/
theorem NameMap.exists_get?_ofList {α : Type} {entries : List (String × α)} {name : String}
    (declared : name ∈ entries.map Prod.fst) :
    ∃ value, (name, value) ∈ entries ∧ (NameMap.ofList entries).get? name = some value := by
  induction entries using List.reverseRecOn with
  | nil => cases declared
  | append_singleton rest entry ih =>
    obtain ⟨key, last⟩ := entry
    have added : NameMap.ofList (rest ++ [(key, last)]) = (NameMap.ofList rest).insert key last :=
      List.foldl_concat ..
    rw [added, NameMap.get?_insert]
    by_cases here : name = key
    · exact ⟨last, by simp [here], if_pos here⟩
    · obtain ⟨value, member, found⟩ := ih (by simpa [here] using declared)
      exact ⟨value, List.mem_append_left _ member, by rw [if_neg here, found]⟩

end ZodModules
