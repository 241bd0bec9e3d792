import ZodModules.Proofs.Model.Exports
import ZodModules.Proofs.Model.Numbering
import ZodModules.Proofs.Model.Renaming
import Mathlib.Order.Bounds.Basic

/-!
# Allocation of enum names

The names that enums get are free when they are taken, so no two of them are the same; and the new
name noted for an old one is the one that was taken, where just one enum of a schema has the old
name.
-/

namespace ZodModules.SymbolTable

open Model (EnumDeclaration)

/-- The search for a number that makes the names of an enum free comes to an end. -/
theorem exists_freeNumber (table : SymbolTable) (declaration : EnumDeclaration) :
    ∃ number, (List.range' 1 (table.values.size + table.types.size + 1)).find?
      (fun number => table.isFree (declaration.numbered number)) = some number := by
  let blocks : String ⊕ String → Nat → Prop
    | .inl value, number => Model.numbered declaration.constant number = value
    | .inr type, number => ∃ base, declaration.type = some base ∧ Model.numbered base number = type
  have once (b : String ⊕ String) (first second : Nat) (of_first : blocks b first)
      (of_second : blocks b second) : first = second := by
    cases b with
    | inl value => exact Model.numbered_injective _ (of_first.trans of_second.symm)
    | inr type =>
      obtain ⟨base, has, same⟩ := of_first
      obtain ⟨base', has', same'⟩ := of_second
      rw [has] at has'
      cases has'
      exact Model.numbered_injective _ (same.trans same'.symm)
  let taken : List (String ⊕ String) :=
    table.values.entries.map (fun e => .inl e.1) ++ table.types.entries.map (fun e => .inr e.1)
  have blocked (number : Nat) (not_free : table.isFree (declaration.numbered number) = false) :
      ∃ b ∈ taken, blocks b number := by
    by_cases value : table.values.get? (Model.numbered declaration.constant number) = none
    · by_cases type : ∀ type, (declaration.numbered number).type = some type →
          table.types.get? type = none
      · rw [isFree_iff.2 ⟨value, type⟩] at not_free
        cases not_free
      · push Not at type
        obtain ⟨name, has, known⟩ := type
        rw [EnumDeclaration.type_numbered] at has
        obtain ⟨base, declared, rfl⟩ := Option.map_eq_some_iff.1 has
        obtain ⟨schema, found⟩ := Option.ne_none_iff_exists'.1 known
        refine ⟨.inr _, List.mem_append_right _ ?_, base, declared, rfl⟩
        exact List.mem_map.2 ⟨_, NameMap.mem_entries_iff.2 found, rfl⟩
    · obtain ⟨schema, found⟩ := Option.ne_none_iff_exists'.1 value
      refine ⟨.inl _, List.mem_append_left _ ?_, rfl⟩
      exact List.mem_map.2 ⟨_, NameMap.mem_entries_iff.2 found, rfl⟩
  have enough : taken.length < table.values.size + table.types.size + 1 := by
    rw [List.length_append, List.length_map, List.length_map]
    exact Nat.lt_succ_self _
  exact Model.exists_find?_range' once blocked enough

/-- The number that an enum gets is the least one under which its names are free. -/
theorem isLeast_freeNumber (table : SymbolTable) (declaration : EnumDeclaration) :
    IsLeast {number | 1 ≤ number ∧ table.isFree (declaration.numbered number)}
      (table.freeNumber declaration) := by
  obtain ⟨number, found⟩ := exists_freeNumber table declaration
  have chosen : table.freeNumber declaration = number := by
    rw [freeNumber, found]
    rfl
  obtain ⟨free, inside, before⟩ := List.find?_range'_eq_some.1 found
  rw [chosen]
  refine ⟨⟨(List.mem_range'_1.1 inside).1, free⟩, ?_⟩
  rintro other ⟨positive, free'⟩
  by_contra less
  have taken := before other positive (Nat.lt_of_not_le less)
  rw [free'] at taken
  cases taken

/-- The number that an enum gets makes its names free. -/
theorem isFree_freeNumber (table : SymbolTable) (declaration : EnumDeclaration) :
    table.isFree (declaration.numbered (table.freeNumber declaration)) :=
  (isLeast_freeNumber table declaration).1.2

/-- An enum of a schema and the number that it gets. -/
structure Allocation where
  schema : String
  declaration : EnumDeclaration
  number : Nat

namespace Allocation

/-- The constant that the enum is declared under in the end. -/
def constant (a : Allocation) : String := Model.numbered a.declaration.constant a.number

/-- The type of the enum in the end. -/
def type? (a : Allocation) : Option String :=
  a.declaration.type.map fun type => Model.numbered type a.number

/-- The name of the enum in a space in the end. -/
def name? (a : Allocation) (space : NameSpace) : Option String :=
  space.enumName? (a.declaration.numbered a.number)

/-- Whether a name is one of the first names of the enum. -/
def Bears (a : Allocation) (name : String) : Prop :=
  a.declaration.constant = name ∨ a.declaration.type = some name

instance (a : Allocation) (name : String) : Decidable (a.Bears name) :=
  inferInstanceAs (Decidable (_ ∨ _))

/-- Notes how the names of the enum differ from its first ones. -/
def note (renames : Renames) (a : Allocation) : Renames :=
  if a.number = 1 then renames
  else
    renames.alter a.schema fun known =>
      let known := (known.getD ∅).insert a.declaration.constant a.constant
      match a.declaration.type, a.type? with
      | some type, some newType => known.insert type newType
      | _, _ => known

end Allocation

/-- The numbers that some enums get one after the other. -/
def allocations : SymbolTable → List (String × EnumDeclaration) → List Allocation
  | _, [] => []
  | table, d :: rest =>
    ⟨d.1, d.2, table.freeNumber d.2⟩ ::
      allocations (table.add d.1 (d.2.numbered (table.freeNumber d.2))) rest

theorem map_allocations (table : SymbolTable) (declarations : List (String × EnumDeclaration)) :
    (allocations table declarations).map (fun a => (a.schema, a.declaration)) = declarations := by
  induction declarations generalizing table with
  | nil => rfl
  | cons d rest ih => rw [allocations, List.map_cons, ih]

theorem allocate_snd (state : SymbolTable × Renames) (schema : String)
    (declaration : EnumDeclaration) :
    (allocate state schema declaration).2 =
      Allocation.note state.2 ⟨schema, declaration, state.1.freeNumber declaration⟩ := by
  obtain ⟨table, renames⟩ := state
  simp only [allocate, Allocation.note]
  split <;> rfl

theorem allocate_fst (state : SymbolTable × Renames) (schema : String)
    (declaration : EnumDeclaration) :
    (allocate state schema declaration).1 =
      state.1.add schema (declaration.numbered (state.1.freeNumber declaration)) := by
  obtain ⟨table, renames⟩ := state
  simp only [allocate]
  split <;> rfl

theorem foldl_allocate_snd (declarations : List (String × EnumDeclaration))
    (state : SymbolTable × Renames) :
    (declarations.foldl (fun state d => allocate state d.1 d.2) state).2 =
      (allocations state.1 declarations).foldl Allocation.note state.2 := by
  induction declarations generalizing state with
  | nil => rfl
  | cons d rest ih =>
    rw [List.foldl_cons, ih, allocate_snd, allocate_fst]
    rfl

/-- The names that enums get in a space are new and distinct. -/
theorem fresh_names (space : NameSpace) (declarations : List (String × EnumDeclaration))
    (table : SymbolTable) :
    ((allocations table declarations).filterMap (·.name? space)).Nodup ∧
      ∀ a ∈ allocations table declarations, ∀ name, a.name? space = some name →
        (space.taken table).get? name = none := by
  induction declarations generalizing table with
  | nil => simp [allocations]
  | cons d rest ih =>
    let final := d.2.numbered (table.freeNumber d.2)
    have free := isFree_freeNumber table d.2
    obtain ⟨nodup, new⟩ := ih (table.add d.1 final)
    have later (a : Allocation) (member : a ∈ allocations (table.add d.1 final) rest)
        (name : String) (has : a.name? space = some name) :
        space.enumName? final ≠ some name ∧ (space.taken table).get? name = none := by
      have missing := new a member name has
      rw [NameSpace.get?_taken_add] at missing
      by_cases same : space.enumName? final = some name
      · rw [if_pos same] at missing
        cases missing
      · rw [if_neg same] at missing
        exact ⟨same, missing⟩
    refine ⟨?_, ?_⟩
    · rw [allocations, List.filterMap_cons]
      split
      · exact nodup
      · rename_i name has
        refine List.nodup_cons.2 ⟨?_, nodup⟩
        intro again
        obtain ⟨a, member, same⟩ := List.mem_filterMap.1 again
        exact (later a member name same).1 has
    · intro a member name has
      rcases List.mem_cons.1 member with rfl | member
      · exact NameSpace.isFree_iff_taken.1 free space name has
      · exact (later a member name has).2

/-- The new name noted for a name in a schema. -/
def newName? (renames : Renames) (schema name : String) : Option String :=
  ((renames.get? schema).getD ∅).get? name

theorem newName?_note {renames : Renames} {a : Allocation} {schema name : String} :
    newName? (Allocation.note renames a) schema name =
      if a.number ≠ 1 ∧ a.schema = schema ∧ a.Bears name then some (Model.numbered name a.number)
      else newName? renames schema name := by
  obtain ⟨owner, declaration, number⟩ := a
  unfold Allocation.note
  by_cases one : number = 1
  · simp [one]
  · unfold newName?
    rw [if_neg one, NameMap.get?_alter]
    by_cases own : schema = owner
    · subst own
      rw [if_pos rfl, Option.getD_some]
      simp only [Allocation.type?, Allocation.constant, Allocation.Bears, ne_eq, one,
        not_false_eq_true, true_and]
      cases declaration.type with
      | none =>
        rw [Option.map_none, NameMap.get?_insert]
        by_cases same : name = declaration.constant
        · simp [same]
        · simp [same, Ne.symm same]
      | some type =>
        rw [Option.map_some]
        simp only [NameMap.get?_insert]
        by_cases same : name = type
        · simp [same]
        · by_cases constant : name = declaration.constant
          · rw [if_neg same, if_pos constant, if_pos (Or.inl constant.symm), constant]
          · simp [same, constant, Ne.symm same, Ne.symm constant]
    · rw [if_neg own, if_neg (by simp [Ne.symm own])]

/-- The new name of a name to which all its bearers in a schema gave one number. -/
theorem newName?_foldl_note {list : List Allocation} {schema name : String} {number : Nat}
    (agree : ∀ a ∈ list, a.schema = schema → a.Bears name → a.number = number)
    (renames : Renames) :
    newName? (list.foldl Allocation.note renames) schema name =
      if number ≠ 1 ∧ ∃ a ∈ list, a.schema = schema ∧ a.Bears name then
        some (Model.numbered name number)
      else newName? renames schema name := by
  induction list generalizing renames with
  | nil => simp
  | cons a rest ih =>
    rw [List.foldl_cons, ih (fun b member => agree b (List.mem_cons_of_mem _ member)),
      newName?_note]
    by_cases later : number ≠ 1 ∧ ∃ b ∈ rest, b.schema = schema ∧ b.Bears name
    · obtain ⟨several, b, member, bears⟩ := later
      rw [if_pos ⟨several, b, member, bears⟩,
        if_pos ⟨several, b, List.mem_cons_of_mem _ member, bears⟩]
    · rw [if_neg later]
      by_cases now : a.schema = schema ∧ a.Bears name
      · have same := agree a List.mem_cons_self now.1 now.2
        rw [same]
        by_cases several : number ≠ 1
        · rw [if_pos ⟨several, now⟩, if_pos ⟨several, a, List.mem_cons_self, now⟩]
        · rw [if_neg (fun h => several h.1), if_neg (fun h => several h.1)]
      · rw [if_neg (fun h => now h.2), if_neg]
        rintro ⟨several, b, member, bears⟩
        rcases List.mem_cons.1 member with rfl | member
        · exact now bears
        · exact later ⟨several, b, member, bears⟩

/-- A new name is the old one with the number of an enum that bears it. -/
theorem exists_of_newName? {list : List Allocation} {renames : Renames} {schema name new : String}
    (found : newName? (list.foldl Allocation.note renames) schema name = some new) :
    (∃ a ∈ list, a.schema = schema ∧ a.Bears name ∧ a.number ≠ 1 ∧
      new = Model.numbered name a.number) ∨ newName? renames schema name = some new := by
  induction list generalizing renames with
  | nil => exact Or.inr found
  | cons a rest ih =>
    rcases ih found with ⟨b, member, noted⟩ | earlier
    · exact Or.inl ⟨b, List.mem_cons_of_mem _ member, noted⟩
    · rw [newName?_note] at earlier
      by_cases now : a.number ≠ 1 ∧ a.schema = schema ∧ a.Bears name
      · rw [if_pos now] at earlier
        obtain ⟨several, own, bears⟩ := now
        exact Or.inl ⟨a, List.mem_cons_self, own, bears, several, (Option.some.inj earlier).symm⟩
      · rw [if_neg now] at earlier
        exact Or.inr earlier

/-- A name has no new one exactly if none was noted before and no enum of the schema bears it under
another number than the first. -/
theorem newName?_foldl_note_eq_none_iff {list : List Allocation} {renames : Renames}
    {schema name : String} :
    newName? (list.foldl Allocation.note renames) schema name = none ↔
      newName? renames schema name = none ∧
        ∀ a ∈ list, a.schema = schema → a.Bears name → a.number = 1 := by
  induction list generalizing renames with
  | nil => simp
  | cons a rest ih =>
    rw [List.foldl_cons, ih, newName?_note, List.forall_mem_cons]
    refine Iff.trans (and_congr_left fun _ => ?_) and_assoc
    split
    · rename_i noted
      refine ⟨nofun, ?_⟩
      rintro ⟨-, first⟩
      exact absurd (first noted.2.1 noted.2.2) noted.1
    · rename_i unnoted
      refine ⟨fun unnamed => ⟨unnamed, fun own bears => ?_⟩, And.left⟩
      by_contra several
      exact unnoted ⟨several, own, bears⟩

/-- What a name that just one enum of a schema bears comes to. -/
theorem getD_newName? {list : List Allocation} {a : Allocation} (member : a ∈ list) {name : String}
    (bears : a.Bears name)
    (only : ∀ b ∈ list, b.schema = a.schema → b.Bears name → b = a) :
    (newName? (list.foldl Allocation.note ∅) a.schema name).getD name =
      Model.numbered name a.number := by
  have agree : ∀ b ∈ list, b.schema = a.schema → b.Bears name → b.number = a.number :=
    fun b inside own bears => congrArg Allocation.number (only b inside own bears)
  rw [newName?_foldl_note agree]
  by_cases several : a.number ≠ 1
  · rw [if_pos ⟨several, a, member, rfl, bears⟩, Option.getD_some]
  · rw [if_neg (fun h => several h.1), not_ne_iff.1 several]
    rfl

end ZodModules.SymbolTable
