import ZodModules.Data.NameSet

/-!
# Maps from names

A `NameMap` lists its entries by strictly increasing key, so a listing never depends on the order
in which the entries were made.
-/

namespace ZodModules

universe u v

/-- A finite map from names, listed by strictly increasing key. -/
structure NameMap (α : Type u) where
  entries : List (String × α)
  sorted : (entries.map Prod.fst).Pairwise (· < ·)
deriving DecidableEq

namespace NameMap

variable {α : Type u} {β : Type v}

/-- Puts an entry at its place in a list sorted by key, over an earlier entry of that key. -/
def insertSorted (name : String) (value : α) : List (String × α) → List (String × α)
  | [] => [(name, value)]
  | x :: rest =>
    if name < x.1 then (name, value) :: x :: rest
    else if name = x.1 then (name, value) :: rest
    else x :: insertSorted name value rest

theorem map_fst_insertSorted (name : String) (value : α) (l : List (String × α)) :
    (insertSorted name value l).map Prod.fst = NameSet.insertSorted name (l.map Prod.fst) := by
  induction l with
  | nil => rfl
  | cons x rest ih =>
    simp only [insertSorted, List.map_cons, NameSet.insertSorted]
    split
    · rfl
    · split
      · rename_i h
        simp [h]
      · simp [ih]

theorem sorted_nil (α : Type u) : (([] : List (String × α)).map Prod.fst).Pairwise (· < ·) :=
  List.Pairwise.nil

instance : EmptyCollection (NameMap α) := ⟨⟨[], sorted_nil α⟩⟩
instance : Inhabited (NameMap α) := ⟨∅⟩

/-- The map with one entry set. -/
def insert (m : NameMap α) (name : String) (value : α) : NameMap α :=
  ⟨insertSorted name value m.entries, by
    rw [map_fst_insertSorted]
    exact NameSet.sorted_insertSorted name m.sorted⟩

/-- The keys of the map. -/
def keys (m : NameMap α) : NameSet := ⟨m.entries.map Prod.fst, m.sorted⟩

/-- The values of the map, by increasing key. -/
def values (m : NameMap α) : List α := m.entries.map Prod.snd

/-- The value of a key. -/
def get? (m : NameMap α) (name : String) : Option α := m.entries.lookup name

/-- Whether a key has a value. -/
def contains (m : NameMap α) (name : String) : Bool := (m.get? name).isSome

/-- The number of entries. -/
def size (m : NameMap α) : Nat := m.entries.length

/-- Whether the map has no entry. -/
def isEmpty (m : NameMap α) : Bool := m.entries.isEmpty

/-- The map of a list of entries; of two entries of one key the later stays. -/
def ofList (entries : List (String × α)) : NameMap α :=
  entries.foldl (fun m e => m.insert e.1 e.2) ∅

/-- Replaces the value of a key by a function of it, which sees `none` for a key without value. -/
def alter (m : NameMap α) (name : String) (f : Option α → α) : NameMap α :=
  m.insert name (f (m.get? name))

/-- The map without the entry of one key. -/
def erase (m : NameMap α) (name : String) : NameMap α :=
  ⟨m.entries.filter (·.1 != name), m.sorted.sublist (List.filter_sublist.map _)⟩

/-- Applies a function of key and value to every entry. -/
def mapEntries (f : String → α → β) (m : NameMap α) : NameMap β :=
  ⟨m.entries.map fun e => (e.1, f e.1 e.2), by
    have h : (m.entries.map fun e => (e.1, f e.1 e.2)).map Prod.fst = m.entries.map Prod.fst := by
      rw [List.map_map]; rfl
    rw [h]
    exact m.sorted⟩

@[simp] theorem get?_empty (name : String) : (∅ : NameMap α).get? name = none := rfl

theorem lookup_insertSorted (name key : String) (value : α) (l : List (String × α)) :
    (insertSorted name value l).lookup key = if key = name then some value else l.lookup key := by
  induction l with
  | nil =>
    simp only [insertSorted]
    grind
  | cons x rest ih =>
    obtain ⟨k, v⟩ := x
    simp only [insertSorted]
    grind

theorem get?_insert (m : NameMap α) (name key : String) (value : α) :
    (m.insert name value).get? key = if key = name then some value else m.get? key :=
  lookup_insertSorted name key value m.entries

@[simp] theorem mem_keys_insert {m : NameMap α} {name a : String} {value : α} :
    a ∈ (m.insert name value).keys ↔ a = name ∨ a ∈ m.keys := by
  show a ∈ (insertSorted name value m.entries).map Prod.fst ↔ _
  rw [map_fst_insertSorted]
  exact NameSet.mem_insertSorted

theorem mem_keys_iff {m : NameMap α} {name : String} : name ∈ m.keys ↔ (m.get? name).isSome := by
  show name ∈ m.entries.map Prod.fst ↔ (m.entries.lookup name).isSome
  induction m.entries with
  | nil => simp
  | cons x rest ih =>
    obtain ⟨k, v⟩ := x
    by_cases h : name = k
    · subst h
      simp
    · have hne : (name == k) = false := by simpa using h
      rw [List.map_cons, List.mem_cons, List.lookup_cons, hne, ih]
      simp [h]

theorem nodup_keys (m : NameMap α) : (m.entries.map Prod.fst).Nodup :=
  m.sorted.imp fun h => String.ne_of_lt h

theorem lookup_eq_some_iff {name : String} {value : α} {l : List (String × α)}
    (h : (l.map Prod.fst).Nodup) : l.lookup name = some value ↔ (name, value) ∈ l := by
  induction l with
  | nil => simp
  | cons x rest ih =>
    obtain ⟨k, v⟩ := x
    obtain ⟨hk, hrest⟩ := List.nodup_cons.1 h
    rw [List.lookup_cons, List.mem_cons, Prod.mk.injEq]
    by_cases hname : name = k
    · subst hname
      have hnot : (name, value) ∉ rest := fun hmem => hk (List.mem_map.2 ⟨_, hmem, rfl⟩)
      simp [hnot, eq_comm]
    · have hne : (name == k) = false := by simpa using hname
      simp [hne, hname, ih hrest]

theorem mem_entries_iff {m : NameMap α} {name : String} {value : α} :
    (name, value) ∈ m.entries ↔ m.get? name = some value :=
  (lookup_eq_some_iff m.nodup_keys).symm

theorem get?_mapEntries (f : String → α → β) (m : NameMap α) (name : String) :
    (m.mapEntries f).get? name = (m.get? name).map (f name) := by
  show (m.entries.map fun e => (e.1, f e.1 e.2)).lookup name = (m.entries.lookup name).map (f name)
  induction m.entries with
  | nil => rfl
  | cons x rest ih =>
    obtain ⟨k, v⟩ := x
    rw [List.map_cons, List.lookup_cons, List.lookup_cons]
    by_cases hname : name = k
    · subst hname
      simp
    · have hne : (name == k) = false := by simpa using hname
      rw [hne, ih]

theorem length_keys (m : NameMap α) : m.keys.toList.length = m.size := by
  simp [keys, size]

/-- To set the value of a key that has one adds no key. -/
theorem keys_insert_of_contains {m : NameMap α} {name : String} {value : α} (h : m.contains name) :
    (m.insert name value).keys.toList = m.keys.toList := by
  show (insertSorted name value m.entries).map Prod.fst = m.entries.map Prod.fst
  rw [map_fst_insertSorted]
  exact NameSet.insertSorted_of_mem m.sorted (mem_keys_iff.2 h)

theorem size_erase_lt {m : NameMap α} {name : String} (h : m.contains name) :
    (m.erase name).size < m.size := by
  obtain ⟨entry, member, same⟩ := List.mem_map.1 (mem_keys_iff.2 h)
  exact List.length_filter_lt_length_iff_exists.2 ⟨entry, member, by simp [same]⟩

theorem get?_erase (m : NameMap α) (name key : String) :
    (m.erase name).get? key = if key = name then none else m.get? key := by
  show (m.entries.filter (·.1 != name)).lookup key = if key = name then none else m.entries.lookup key
  induction m.entries with
  | nil => simp
  | cons x rest ih =>
    obtain ⟨k, v⟩ := x
    rw [List.filter_cons]
    grind

theorem get?_alter (m : NameMap α) (name key : String) (f : Option α → α) :
    (m.alter name f).get? key = if key = name then some (f (m.get? name)) else m.get? key :=
  get?_insert m name key _

end NameMap

end ZodModules
