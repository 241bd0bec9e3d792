/-!
# Sets of names

A `NameSet` is a strictly increasing list of strings, so two sets with the same members are the
same value and every listing of a set is sorted by code points (for UTF-8 text that is the order
of the bytes as well).
-/

namespace ZodModules

/-- A finite set of names, listed in strictly increasing order. -/
structure NameSet where
  toList : List String
  sorted : toList.Pairwise (· < ·)
deriving DecidableEq

namespace NameSet

/-- Puts a name at its place in an increasing list; a name already there is not repeated. -/
def insertSorted (name : String) : List String → List String
  | [] => [name]
  | x :: rest =>
    if name < x then name :: x :: rest
    else if name = x then x :: rest
    else x :: insertSorted name rest

theorem mem_insertSorted {name a : String} {l : List String} :
    a ∈ insertSorted name l ↔ a = name ∨ a ∈ l := by
  induction l with
  | nil => simp [insertSorted]
  | cons x rest ih =>
    rw [insertSorted]
    split
    · simp
    · split
      · simp_all
      · simp [ih]; grind

theorem lt_of_not_lt_of_ne {a b : String} (h : ¬ a < b) (hne : a ≠ b) : b < a := by
  rcases String.le_total a b with hab | hab
  · exact absurd (String.le_antisymm hab (String.not_lt.1 h)) hne
  · exact Classical.byContradiction fun hba =>
      hne (String.le_antisymm (String.not_lt.1 hba) hab)

theorem sorted_insertSorted (name : String) {l : List String} (h : l.Pairwise (· < ·)) :
    (insertSorted name l).Pairwise (· < ·) := by
  induction l with
  | nil => simp [insertSorted]
  | cons x rest ih =>
    obtain ⟨hx, hrest⟩ := List.pairwise_cons.1 h
    rw [insertSorted]
    split
    · rename_i hlt
      refine List.pairwise_cons.2 ⟨fun a ha => ?_, h⟩
      rcases List.mem_cons.1 ha with rfl | ha
      · exact hlt
      · exact String.lt_trans hlt (hx a ha)
    · rename_i hlt
      split
      · exact h
      · rename_i hne
        refine List.pairwise_cons.2 ⟨fun a ha => ?_, ih hrest⟩
        rcases mem_insertSorted.1 ha with rfl | ha
        · exact lt_of_not_lt_of_ne hlt hne
        · exact hx a ha

/-- A name that an increasing list holds is not put into it again. -/
theorem insertSorted_of_mem {name : String} {l : List String} (h : l.Pairwise (· < ·))
    (member : name ∈ l) : insertSorted name l = l := by
  induction l with
  | nil => cases member
  | cons x rest ih =>
    obtain ⟨hx, hrest⟩ := List.pairwise_cons.1 h
    rw [insertSorted]
    rcases List.mem_cons.1 member with rfl | later
    · rw [if_neg (String.lt_irrefl _), if_pos rfl]
    · have hlt := hx name later
      rw [if_neg (String.lt_asymm hlt), if_neg (String.ne_of_lt hlt).symm, ih hrest later]

instance : EmptyCollection NameSet := ⟨⟨[], List.Pairwise.nil⟩⟩
instance : Inhabited NameSet := ⟨∅⟩
instance : Membership String NameSet := ⟨fun s name => name ∈ s.toList⟩

instance (name : String) (s : NameSet) : Decidable (name ∈ s) :=
  inferInstanceAs (Decidable (name ∈ s.toList))

/-- The set with one more name. -/
def insert (s : NameSet) (name : String) : NameSet :=
  ⟨insertSorted name s.toList, sorted_insertSorted name s.sorted⟩

/-- Whether a name belongs to the set. -/
def contains (s : NameSet) (name : String) : Bool := decide (name ∈ s)

/-- The number of members. -/
def size (s : NameSet) : Nat := s.toList.length

/-- Whether the set has no member. -/
def isEmpty (s : NameSet) : Bool := s.toList.isEmpty

/-- The set of the names of a list. -/
def ofList (names : List String) : NameSet := names.foldl insert ∅

/-- The members of either set. -/
def union (s t : NameSet) : NameSet := t.toList.foldl insert s

/-- The members for which `keep` holds. -/
def filter (keep : String → Bool) (s : NameSet) : NameSet :=
  ⟨s.toList.filter keep, s.sorted.filter keep⟩

/-- The set without one name. -/
def erase (s : NameSet) (name : String) : NameSet := s.filter (· != name)

@[simp] theorem mem_toList {s : NameSet} {a : String} : a ∈ s.toList ↔ a ∈ s := Iff.rfl

@[simp] theorem not_mem_empty (a : String) : a ∉ (∅ : NameSet) := fun h => nomatch h

@[simp] theorem mem_insert {s : NameSet} {a name : String} :
    a ∈ s.insert name ↔ a = name ∨ a ∈ s := mem_insertSorted

@[simp] theorem mem_filter {s : NameSet} {keep : String → Bool} {a : String} :
    a ∈ s.filter keep ↔ a ∈ s ∧ keep a := List.mem_filter

@[simp] theorem mem_erase {s : NameSet} {a name : String} :
    a ∈ s.erase name ↔ a ∈ s ∧ a ≠ name := by
  simp [erase]

theorem size_erase_lt {s : NameSet} {name : String} (h : name ∈ s) :
    (s.erase name).size < s.size :=
  List.length_filter_lt_length_iff_exists.2 ⟨name, h, by simp⟩

theorem mem_foldl_insert {s : NameSet} {names : List String} {a : String} :
    a ∈ names.foldl insert s ↔ a ∈ s ∨ a ∈ names := by
  induction names generalizing s with
  | nil => simp
  | cons x rest ih => simp [ih]; grind

@[simp] theorem mem_ofList {names : List String} {a : String} : a ∈ ofList names ↔ a ∈ names := by
  simp [ofList, mem_foldl_insert]

@[simp] theorem mem_union {s t : NameSet} {a : String} : a ∈ s.union t ↔ a ∈ s ∨ a ∈ t :=
  mem_foldl_insert

end NameSet

end ZodModules
