import ZodModules.Proofs.Data.Listings
import ZodModules.Proofs.Model.Allocation
import ZodModules.Proofs.Model.Collisions

/-!
# Numbers of enums

Each enum of some models takes part in the allocation of names once. The number that it gets is the
least one under which its names are unused: they follow from the name of no schema, and no enum that
chose before has them.
-/

namespace ZodModules

open Model (EnumDeclaration)

/-- The enums of a model are declared under distinct constants, none of which is the type of one. -/
structure Model.DistinctEnums (model : Model) : Prop where
  constants : (model.enums.map (·.constant)).Nodup
  apart : ∀ known ∈ model.enums, ∀ other ∈ model.enums, other.type ≠ some known.constant

namespace SymbolTable

variable {config : Config} {models : NameMap Model} {report : Report}

theorem eq_of_nodup_filterMap {α β : Type} [DecidableEq β] {f : α → Option β} {list : List α}
    (nodup : (list.filterMap f).Nodup) {first second : α} (member : first ∈ list)
    (other : second ∈ list) {value : β} (of_first : f first = some value)
    (of_second : f second = some value) : first = second := by
  have alone := Listing.nodup_filterMap_iff.1 nodup
  have same := (alone first member value of_first).symm.trans (alone second other value of_second)
  exact List.singleton_inj.1 same

/-! ## One enum after the other -/

/-- An enum under the names that it gets. -/
def Allocation.final (a : Allocation) : EnumDeclaration := a.declaration.numbered a.number

/-- Takes the names that some enums get. -/
def addAll (table : SymbolTable) (list : List Allocation) : SymbolTable :=
  list.foldl (fun table a => table.add a.schema a.final) table

theorem get?_taken_addAll_eq_none_iff {space : NameSpace} {name : String} {list : List Allocation}
    {table : SymbolTable} :
    (space.taken (table.addAll list)).get? name = none ↔
      (space.taken table).get? name = none ∧ ∀ a ∈ list, a.name? space ≠ some name := by
  unfold addAll
  induction list generalizing table with
  | nil => simp
  | cons a rest ih =>
    rw [List.foldl_cons, ih, NameSpace.get?_taken_add, List.forall_mem_cons]
    show (if a.name? space = some name then some a.schema else _) = none ∧ _ ↔ _
    by_cases own : a.name? space = some name
    · simp [own]
    · rw [if_neg own]
      exact ⟨fun h => ⟨h.1, own, h.2⟩, fun h => ⟨h.1, h.2.2⟩⟩

/-- Enums choose from what the ones before left. -/
theorem allocations_append (table : SymbolTable) (first second : List (String × EnumDeclaration)) :
    allocations table (first ++ second) =
      allocations table first ++ allocations (table.addAll (allocations table first)) second := by
  induction first generalizing table with
  | nil => rfl
  | cons d rest ih =>
    rw [List.cons_append, allocations, ih, allocations, List.cons_append]
    rfl

/-- No schema with one of the models has a name from which a name of the enum follows in its space,
and none of the other enums has one of its names. -/
def Unused (config : Config) (models : List Model) (others : List EnumDeclaration)
    (declaration : EnumDeclaration) : Prop :=
  ∀ (space : NameSpace) name, space.enumName? declaration = some name →
    (∀ schema, ¬ space.Derives config models schema name) ∧
      ∀ other ∈ others, space.enumName? other ≠ some name

/-- What is free after all schemas and some enums have taken their names. -/
theorem isFree_addAll_claimed_iff {list : List Allocation} {declaration : EnumDeclaration} :
    ((claimed config models report).1.addAll list).isFree declaration ↔
      Unused config models.values (list.map Allocation.final) declaration := by
  rw [NameSpace.isFree_iff_taken]
  refine forall_congr' fun space => forall_congr' fun name => imp_congr_right fun _ => ?_
  rw [get?_taken_addAll_eq_none_iff, get?_claimed, List.forall_mem_map, ← not_exists,
    ← NameSpace.deriver?_isSome_iff, Option.not_isSome_iff_eq_none]
  rfl

/-! ## All enums -/

theorem declarations_perm (models : NameMap Model) :
    (declarations models).Perm
      (models.entries.flatMap fun entry => entry.2.enums.map fun e => (entry.1, e)) := by
  have split (d : String × EnumDeclaration) : d.2.type.isSome = !d.2.type.isNone := by
    cases d.2.type <;> rfl
  unfold declarations
  simp only [split]
  exact List.filter_append_perm _ _

theorem mem_declarations_iff {name : String} {declaration : EnumDeclaration} :
    (name, declaration) ∈ declarations models ↔
      ∃ model, models.get? name = some model ∧ declaration ∈ model.enums := by
  rw [(declarations_perm models).mem_iff, List.mem_flatMap]
  constructor
  · rintro ⟨⟨key, model⟩, entry, member⟩
    obtain ⟨e, inside, same⟩ := List.mem_map.1 member
    cases same
    exact ⟨model, NameMap.mem_entries_iff.1 entry, inside⟩
  · rintro ⟨model, found, inside⟩
    exact ⟨(name, model), NameMap.mem_entries_iff.2 found, List.mem_map.2 ⟨declaration, inside, rfl⟩⟩

/-- The numbers that the enums of some models get. -/
def allocationsOf (config : Config) (models : NameMap Model) (report : Report) : List Allocation :=
  allocations (claimed config models report).1 (declarations models)

theorem mem_enums_of_mem_allocationsOf {a : Allocation}
    (member : a ∈ allocationsOf config models report) :
    ∃ model, models.get? a.schema = some model ∧ a.declaration ∈ model.enums := by
  apply mem_declarations_iff.1
  rw [← map_allocations (claimed config models report).1 (declarations models)]
  exact List.mem_map.2 ⟨a, member, rfl⟩

/-- Each enum of a model has its allocation. -/
theorem exists_allocation {name : String} {model : Model} (found : models.get? name = some model)
    {declaration : EnumDeclaration} (member : declaration ∈ model.enums) :
    ∃ a ∈ allocationsOf config models report, a.schema = name ∧ a.declaration = declaration := by
  have listed : (name, declaration) ∈ declarations models :=
    mem_declarations_iff.2 ⟨model, found, member⟩
  rw [← map_allocations (claimed config models report).1 (declarations models)] at listed
  obtain ⟨a, inside, same⟩ := List.mem_map.1 listed
  exact ⟨a, inside, congrArg Prod.fst same, congrArg Prod.snd same⟩

/-- The number that an enum of a schema gets. -/
def numberOf (config : Config) (models : NameMap Model) (report : Report) (schema : String)
    (declaration : EnumDeclaration) : Nat :=
  (((allocationsOf config models report).find? fun a =>
    a.schema = schema ∧ a.declaration = declaration).map (·.number)).getD 1

theorem get?_renamesOf (schema name : String) :
    (renamesOf config models report schema).get? name =
      newName? ((allocationsOf config models report).foldl Allocation.note ∅) schema name := by
  unfold renamesOf allocated allocationsOf
  rw [foldl_allocate_snd]
  rfl

/-- An enum that bears a name has it in one of the spaces. -/
theorem exists_space_of_bears {a : Allocation} {name : String} (bears : a.Bears name) :
    ∃ space : NameSpace, space.enumName? a.declaration = some name := by
  rcases bears with constant | type
  · exact ⟨.values, congrArg some constant⟩
  · exact ⟨.types, type⟩

theorem bears_of_enumName? {a : Allocation} {name : String} {space : NameSpace}
    (has : space.enumName? a.declaration = some name) : a.Bears name := by
  cases space with
  | values => exact Or.inl (Option.some.inj has)
  | types => exact Or.inr has

theorem filterMap_constant (enums : List EnumDeclaration) :
    enums.filterMap NameSpace.values.enumName? = enums.map (·.constant) :=
  congrFun List.filterMap_eq_map' enums

/-- No enum of a model has a name in one space that one has in the other. -/
theorem space_unique {model : Model} (distinct : model.DistinctEnums)
    {known other : EnumDeclaration} (member : known ∈ model.enums) (member' : other ∈ model.enums)
    {space space' : NameSpace} {name : String} (has : space.enumName? known = some name)
    (has' : space'.enumName? other = some name) : space = space' := by
  cases space with
  | values =>
    cases space' with
    | values => rfl
    | types =>
      cases has
      exact absurd has' (distinct.apart known member other member')
  | types =>
    cases space' with
    | values =>
      cases has'
      exact absurd has (distinct.apart other member' known member)
    | types => rfl

section Distinct

variable (distinct : ∀ name model, models.get? name = some model → model.DistinctEnums)

include distinct

/-- No schema declares one constant twice. -/
theorem nodup_declared_constants :
    ((declarations models).map fun d => (d.1, d.2.constant)).Nodup := by
  rw [((declarations_perm models).map _).nodup_iff, List.map_flatMap, List.nodup_flatMap]
  refine ⟨?_, ?_⟩
  · rintro ⟨name, model⟩ entry
    have constants := (distinct name model (NameMap.mem_entries_iff.1 entry)).constants
    refine List.Nodup.of_map Prod.snd ?_
    rw [List.map_map, List.map_map]
    exact constants
  · refine (List.pairwise_map.1 (NameMap.nodup_keys _)).imp ?_
    intro first second different
    show List.Disjoint _ _
    intro pair of_first of_second
    simp only [List.mem_map] at of_first of_second
    obtain ⟨_, ⟨e, -, rfl⟩, rfl⟩ := of_first
    obtain ⟨_, ⟨e', -, rfl⟩, same⟩ := of_second
    exact different (congrArg Prod.fst same).symm

/-- The allocation of an enum is the only one of its schema with its constant. -/
theorem allocation_unique {a b : Allocation} (first : a ∈ allocationsOf config models report)
    (second : b ∈ allocationsOf config models report) (own : b.schema = a.schema)
    (constant : b.declaration.constant = a.declaration.constant) : b = a := by
  have nodup : ((allocationsOf config models report).map
      fun a => (a.schema, a.declaration.constant)).Nodup := by
    have all : (declarations models).map (fun d => (d.1, d.2.constant)) =
        (allocationsOf config models report).map fun a => (a.schema, a.declaration.constant) := by
      rw [← map_allocations (claimed config models report).1 (declarations models), List.map_map]
      rfl
    rw [← all]
    exact nodup_declared_constants distinct
  exact List.inj_on_of_nodup_map nodup second first (Prod.ext own constant)

/-- The name of an enum in a space becomes the one that it was allocated, if the enums of the model
had distinct names there. -/
theorem enumName?_renamed {model : Model} {a : Allocation}
    (member : a ∈ allocationsOf config models report) (found : models.get? a.schema = some model)
    (space : NameSpace) (nodup : (model.enums.filterMap space.enumName?).Nodup) :
    space.enumName? (a.declaration.rename (renamesOf config models report a.schema)) =
      a.name? space := by
  have renamed :
      space.enumName? (a.declaration.rename (renamesOf config models report a.schema)) =
        (space.enumName? a.declaration).map fun name =>
          ((renamesOf config models report a.schema).get? name).getD name := by
    cases space <;> rfl
  have numbered : a.name? space =
      (space.enumName? a.declaration).map fun name => Model.numbered name a.number := by
    cases space <;> rfl
  have inside {b : Allocation} (listed : b ∈ allocationsOf config models report)
      (own : b.schema = a.schema) : b.declaration ∈ model.enums := by
    obtain ⟨other, found', inside⟩ := mem_enums_of_mem_allocationsOf listed
    rw [own, found] at found'
    cases found'
    exact inside
  rw [renamed, numbered]
  cases has : space.enumName? a.declaration with
  | none => rfl
  | some name =>
    rw [Option.map_some, Option.map_some, get?_renamesOf]
    refine congrArg some (getD_newName? member (bears_of_enumName? has) ?_)
    intro b other own bears
    obtain ⟨space', has'⟩ := exists_space_of_bears bears
    obtain rfl :=
      space_unique (distinct _ _ found) (inside other own) (inside member rfl) has' has
    have same := eq_of_nodup_filterMap nodup (inside other own) (inside member rfl) has' has
    exact allocation_unique distinct member other own (congrArg EnumDeclaration.constant same)

/-- The number of an enum is the one of its allocation. -/
theorem numberOf_eq {a : Allocation} (member : a ∈ allocationsOf config models report) :
    numberOf config models report a.schema a.declaration = a.number := by
  have present : ((allocationsOf config models report).find? fun b =>
      b.schema = a.schema ∧ b.declaration = a.declaration).isSome :=
    List.find?_isSome.2 ⟨a, member, by simp⟩
  obtain ⟨b, found⟩ := Option.isSome_iff_exists.1 present
  have same := List.find?_some found
  rw [decide_eq_true_eq] at same
  have unique := allocation_unique distinct member (List.mem_of_find?_eq_some found) same.1
    (congrArg EnumDeclaration.constant same.2)
  rw [numberOf, found, unique]
  rfl

variable (config report)

/-- The number of an enum is the least one under which its names are unused, by the schemas as well
as by the enums that come before. -/
theorem isLeast_numberOf {earlier later : List (String × EnumDeclaration)} {schema : String}
    {declaration : EnumDeclaration}
    (split : declarations models = earlier ++ (schema, declaration) :: later) :
    IsLeast {k | 1 ≤ k ∧ Unused config models.values
        (earlier.map fun d => d.2.numbered (numberOf config models report d.1 d.2))
        (declaration.numbered k)}
      (numberOf config models report schema declaration) := by
  have all : allocationsOf config models report = _ := congrArg (allocations _) split
  rw [allocations_append, allocations] at all
  have own := numberOf_eq distinct (all ▸ List.mem_append_right _ List.mem_cons_self)
  have others : (earlier.map fun d => d.2.numbered (numberOf config models report d.1 d.2)) =
      (allocations (claimed config models report).1 earlier).map Allocation.final := by
    conv_lhs => rw [← map_allocations (claimed config models report).1 earlier]
    rw [List.map_map]
    refine List.map_congr_left fun a member => ?_
    exact congrArg a.declaration.numbered
      (numberOf_eq distinct (all ▸ List.mem_append_left _ member))
  rw [own, others]
  simp only [← @isFree_addAll_claimed_iff config models report]
  exact isLeast_freeNumber _ _

/-- The enums of a model end up under their constants with their numbers. -/
theorem constants_rename {name : String} {model : Model} (found : models.get? name = some model) :
    (model.rename (renamesOf config models report name)).enums.map (·.constant) =
      model.enums.map fun e => Model.numbered e.constant (numberOf config models report name e) := by
  show (model.enums.map (EnumDeclaration.rename _)).map (·.constant) = _
  rw [List.map_map]
  refine List.map_congr_left fun e member => ?_
  obtain ⟨a, inside, rfl, rfl⟩ := @exists_allocation config models report _ _ found _ member
  have nodup := (distinct _ _ found).constants
  rw [← filterMap_constant] at nodup
  have renamed := enumName?_renamed distinct inside found .values nodup
  rw [numberOf_eq distinct inside]
  exact Option.some.inj renamed

/-- The constants that all enums end up under are distinct. -/
theorem nodup_numbered_constants :
    (models.entries.flatMap fun entry => entry.2.enums.map fun e =>
      Model.numbered e.constant (numberOf config models report entry.1 e)).Nodup := by
  have numbered : (models.entries.flatMap fun entry => entry.2.enums.map fun e =>
        Model.numbered e.constant (numberOf config models report entry.1 e)) =
      (models.entries.flatMap fun entry => entry.2.enums.map fun e => (entry.1, e)).map fun d =>
        Model.numbered d.2.constant (numberOf config models report d.1 d.2) := by
    simp only [List.map_flatMap, List.map_map, Function.comp_def]
  rw [numbered, (((declarations_perm models).symm).map _).nodup_iff,
    ← map_allocations (claimed config models report).1 (declarations models), List.map_map]
  have constants : (allocationsOf config models report).map
        ((fun d => Model.numbered d.2.constant (numberOf config models report d.1 d.2)) ∘
          fun a => (a.schema, a.declaration)) =
      (allocationsOf config models report).filterMap (·.name? .values) := by
    rw [← List.filterMap_eq_map']
    refine List.filterMap_congr fun a member => ?_
    show some (Model.numbered a.declaration.constant _) = some (Model.numbered _ _)
    rw [numberOf_eq distinct member]
  exact constants ▸ (fresh_names .values _ _).1

end Distinct

end SymbolTable

end ZodModules
