/-!
# Lists of entries

A list of pairs read as a finite map, which keeps the order in which its keys first appeared.
-/

namespace ZodModules.Entries

universe u v

variable {κ : Type u} {α : Type v} [DecidableEq κ]

/-- Sets the value of a key: a key that is there keeps its place, a new one comes last. -/
def set (key : κ) (value : α) : List (κ × α) → List (κ × α)
  | [] => [(key, value)]
  | e :: rest => if e.1 = key then (key, value) :: rest else e :: set key value rest

theorem lookup_set (key other : κ) (value : α) (entries : List (κ × α)) :
    (set key value entries).lookup other = if other = key then some value else entries.lookup other := by
  induction entries with
  | nil =>
    simp only [set]
    grind
  | cons e rest ih =>
    obtain ⟨k, v⟩ := e
    simp only [set]
    grind

theorem map_fst_set_of_mem {key : κ} {entries : List (κ × α)} (value : α)
    (h : key ∈ entries.map Prod.fst) :
    (set key value entries).map Prod.fst = entries.map Prod.fst := by
  induction entries with
  | nil => simp at h
  | cons e rest ih =>
    simp only [set]
    split
    · rename_i he
      simp [he]
    · rename_i he
      rw [List.map_cons, List.mem_cons] at h
      rcases h with h | h
      · exact absurd h.symm he
      · simp [ih h]

theorem set_of_not_mem {key : κ} {entries : List (κ × α)} (value : α)
    (h : key ∉ entries.map Prod.fst) : set key value entries = entries ++ [(key, value)] := by
  induction entries with
  | nil => rfl
  | cons e rest ih =>
    rw [List.map_cons, List.mem_cons, not_or] at h
    simp only [set, List.cons_append]
    rw [if_neg (Ne.symm h.1), ih h.2]

end ZodModules.Entries
