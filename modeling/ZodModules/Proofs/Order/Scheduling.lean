import ZodModules.Order.Schedule
import ZodModules.Proofs.Data.Listings
import ZodModules.Proofs.Order.Precedence
import Mathlib.Data.List.Find

/-!
# Schedules find the declaration order

A schedule never has to look at all dependencies again: after any number of declarations, ties
included, what each member waits for is what it depends on among the members that remain, and the
ready ones are just those that had dependencies and have none of them left. So it declares the same
member at each step as a search from scratch.
-/

namespace ZodModules

namespace Graph

/-- An exploration asks for the successors of nodes only that it may enter. -/
theorem explore_congr {α : Type} [DecidableEq α] {successors successors' : α → List α}
    {unvisited work : List α} (same : ∀ node ∈ unvisited, successors node = successors' node) :
    explore successors unvisited work = explore successors' unvisited work := by
  fun_induction explore successors unvisited work with
  | case1 => rw [explore]
  | case2 unvisited node work fresh ih =>
    rw [explore, dif_pos fresh, ← same node (List.contains_iff_mem.1 fresh),
      ih fun other member => same other (List.mem_of_mem_erase member)]
  | case3 unvisited node work visited ih => rw [explore, dif_neg visited, ih same]

end Graph

namespace Schedule

open DeclarationOrder

/-- The dependencies of a member that remain. -/
def remainingOf (dependsOn : String → NameSet) (remaining : NameSet) (name : String) : NameSet :=
  (dependsOn name).filter remaining.contains

theorem toList_remainingOf (dependsOn : String → NameSet) (remaining : NameSet) (name : String) :
    (remainingOf dependsOn remaining name).toList =
      openDependencies dependsOn remaining.toList name := by
  show (dependsOn name).toList.filter _ = (dependsOn name).toList.filter _
  refine List.filter_congr fun other _ => ?_
  rw [NameSet.contains, Bool.eq_iff_iff, decide_eq_true_iff, List.contains_iff_mem,
    NameSet.mem_toList]

theorem mem_remainingOf {dependsOn : String → NameSet} {remaining : NameSet} {name other : String} :
    other ∈ remainingOf dependsOn remaining name ↔ other ∈ dependsOn name ∧ other ∈ remaining := by
  simp [remainingOf, NameSet.contains]

theorem remainingOf_erase {dependsOn : String → NameSet} {remaining : NameSet}
    {declared name : String} :
    remainingOf dependsOn (remaining.erase declared) name =
      (remainingOf dependsOn remaining name).erase declared := by
  apply NameSet.ext_mem
  intro other
  simp only [mem_remainingOf, NameSet.mem_erase, and_assoc]

/-- What a member does not depend on may be declared without any change for it. -/
theorem remainingOf_erase_of_not_mem {dependsOn : String → NameSet} {remaining : NameSet}
    {declared name : String} (free : declared ∉ dependsOn name) :
    remainingOf dependsOn (remaining.erase declared) name = remainingOf dependsOn remaining name := by
  apply NameSet.ext_mem
  intro other
  rw [mem_remainingOf, mem_remainingOf, NameSet.mem_erase]
  have different : other ∈ dependsOn name → other ≠ declared := fun depends same =>
    free (same ▸ depends)
  tauto

/-- A schedule is what a look at the remaining members from scratch tells. -/
structure Tracks (dependsOn : String → NameSet) (remaining : NameSet) (schedule : Schedule) :
    Prop where
  pending : ∀ name, schedule.pending.get? name =
    if name ∈ remaining then some (remainingOf dependsOn remaining name) else none
  ready : ∀ name, name ∈ schedule.ready ↔
    name ∈ remaining ∧ dependsOn name ≠ ∅ ∧ remainingOf dependsOn remaining name = ∅

theorem isEmpty_iff {names : NameSet} : names.isEmpty ↔ names = ∅ := by
  unfold NameSet.isEmpty
  rw [List.isEmpty_iff]
  constructor
  · intro empty
    apply NameSet.ext_mem
    intro name
    rw [← NameSet.mem_toList, empty]
    simp
  · rintro rfl
    rfl

section Settling

variable {schedule : Schedule} {declared name : String}

theorem get?_settle {user : String} :
    (schedule.settle declared user).pending.get? name =
      if name = user then (schedule.pending.get? name).map (·.erase declared)
      else schedule.pending.get? name := by
  unfold settle
  split
  · rename_i unknown
    split
    · rename_i same
      rw [same, unknown, Option.map_none]
    · rfl
  · rename_i dependencies known
    rw [NameMap.get?_insert]
    split
    · rename_i same
      rw [same, known, Option.map_some]
    · rfl

theorem mem_ready_settle {user : String} :
    name ∈ (schedule.settle declared user).ready ↔
      name ∈ schedule.ready ∨ name = user ∧
        ∃ dependencies, schedule.pending.get? name = some dependencies ∧
          dependencies.erase declared = ∅ := by
  unfold settle
  split
  · rename_i unknown
    constructor
    · exact Or.inl
    · rintro (ready | ⟨rfl, dependencies, known, -⟩)
      · exact ready
      · rw [unknown] at known
        cases known
  · rename_i dependencies known
    dsimp only
    split
    · rename_i settled
      rw [NameSet.mem_insert, or_comm]
      refine or_congr_right ⟨?_, And.left⟩
      rintro rfl
      exact ⟨rfl, dependencies, known, isEmpty_iff.1 settled⟩
    · rename_i unsettled
      constructor
      · exact Or.inl
      · rintro (ready | ⟨rfl, other, known', settled⟩)
        · exact ready
        · obtain rfl := Option.some.inj (known.symm.trans known')
          exact absurd (isEmpty_iff.2 settled) unsettled

/-- Every dependent of a declared member waits for it no longer, and the others as before. -/
theorem get?_foldl_settle {users : List String} (nodup : users.Nodup) :
    (users.foldl (settle declared) schedule).pending.get? name =
      if name ∈ users then (schedule.pending.get? name).map (·.erase declared)
      else schedule.pending.get? name := by
  induction users generalizing schedule with
  | nil => simp
  | cons user rest ih =>
    obtain ⟨fresh, nodup⟩ := List.nodup_cons.1 nodup
    rw [List.foldl_cons, ih nodup, get?_settle]
    by_cases here : name = user
    · subst here
      rw [if_neg fresh, if_pos rfl, if_pos List.mem_cons_self]
    · simp only [List.mem_cons, here, false_or, if_false]

/-- Those dependents become ready that wait for nothing else. -/
theorem mem_ready_foldl_settle {users : List String} (nodup : users.Nodup) :
    name ∈ (users.foldl (settle declared) schedule).ready ↔
      name ∈ schedule.ready ∨ name ∈ users ∧
        ∃ dependencies, schedule.pending.get? name = some dependencies ∧
          dependencies.erase declared = ∅ := by
  induction users generalizing schedule with
  | nil => simp
  | cons user rest ih =>
    obtain ⟨fresh, nodup⟩ := List.nodup_cons.1 nodup
    rw [List.foldl_cons, ih nodup, mem_ready_settle, get?_settle, List.mem_cons, or_assoc]
    refine or_congr_right ?_
    by_cases here : name = user
    · subst here
      simp [fresh]
    · simp [here]

end Settling

section Declaring

variable {dependsOn : String → NameSet} {dependents : NameMap NameSet} {remaining : NameSet}
  {schedule : Schedule} {name : String}

/-- The dependents of a name are the members that depend on it. -/
def Inverts (dependents : NameMap NameSet) (dependsOn : String → NameSet) : Prop :=
  ∀ name user, user ∈ (dependents.get? name).getD ∅ ↔ name ∈ dependsOn user

/-- To declare a member takes a schedule of the remaining ones to a schedule of the others. -/
theorem Tracks.declare (inverts : Inverts dependents dependsOn)
    (tracks : Tracks dependsOn remaining schedule) :
    Tracks dependsOn (remaining.erase name)
      ((schedule.takeReady name).declare dependents name) := by
  have nodup : ((dependents.get? name).getD ∅).toList.Nodup :=
    ((dependents.get? name).getD ∅).sorted.imp fun less => String.ne_of_lt less
  have before (other : String) : (schedule.pending.erase name).get? other =
      if other ∈ remaining.erase name then some (remainingOf dependsOn remaining other)
      else none := by
    rw [NameMap.get?_erase, tracks.pending]
    by_cases same : other = name <;> simp [same]
  constructor
  · intro other
    rw [Schedule.declare, get?_foldl_settle nodup]
    simp only [NameSet.mem_toList, inverts name other, takeReady, before other]
    by_cases present : other ∈ remaining.erase name
    · simp only [if_pos present, Option.map_some]
      split
      · rw [remainingOf_erase]
      · rename_i free
        rw [remainingOf_erase_of_not_mem free]
    · simp only [if_neg present, Option.map_none, ite_self]
  · intro other
    rw [Schedule.declare, mem_ready_foldl_settle nodup]
    simp only [NameSet.mem_toList, inverts name other, takeReady, before other, NameSet.mem_erase,
      tracks.ready other]
    constructor
    · rintro (⟨⟨present, dependent, released⟩, different⟩ | ⟨depends, dependencies, known, settled⟩)
      · refine ⟨⟨present, different⟩, dependent, ?_⟩
        rw [remainingOf_erase, released]
        rfl
      · split at known
        · rename_i present
          cases known
          refine ⟨present, ?_, by rw [remainingOf_erase, settled]⟩
          intro released
          rw [released] at depends
          exact NameSet.not_mem_empty _ depends
        · cases known
    · rintro ⟨⟨present, different⟩, dependent, released⟩
      by_cases depends : name ∈ dependsOn other
      · rw [remainingOf_erase] at released
        exact Or.inr ⟨depends, _, if_pos ⟨present, different⟩, released⟩
      · rw [remainingOf_erase_of_not_mem depends] at released
        exact Or.inl ⟨⟨present, dependent, released⟩, different⟩

/-- A member that is not ready need not be taken off those that are. -/
theorem takeReady_of_not_mem (absent : name ∉ schedule.ready) :
    schedule.takeReady name = schedule := by
  have same : schedule.ready.erase name = schedule.ready := by
    apply NameSet.ext_mem
    intro other
    rw [NameSet.mem_erase]
    exact ⟨And.left, fun ready => ⟨ready, fun same => absent (same ▸ ready)⟩⟩
  unfold takeReady
  rw [same]

end Declaring

section Advancing

variable {dependsOn : String → NameSet} {dependents : NameMap NameSet} {remaining : NameSet}
  {schedule : Schedule} {name : String} (tracks : Tracks dependsOn remaining schedule)

include tracks

theorem Tracks.keys_eq : schedule.pending.keys = remaining := by
  apply NameSet.ext_mem
  intro name
  rw [NameMap.mem_keys_iff, tracks.pending]
  split <;> simp [*]

theorem Tracks.contains_iff : schedule.pending.contains name ↔ name ∈ remaining := by
  show (schedule.pending.get? name).isSome ↔ _
  rw [← NameMap.mem_keys_iff, tracks.keys_eq]

theorem Tracks.waiting_eq (present : name ∈ remaining) :
    schedule.waiting name = openDependencies dependsOn remaining.toList name := by
  rw [waiting, tracks.pending, if_pos present, Option.getD_some, toList_remainingOf]

/-- If all remaining members have dependencies, the ready ones are those that have none open. -/
theorem Tracks.toList_ready (held : ∀ name ∈ remaining, dependsOn name ≠ ∅) :
    schedule.ready.toList = remaining.toList.filter fun name =>
      (openDependencies dependsOn remaining.toList name).isEmpty := by
  have same : schedule.ready = remaining.filter fun name =>
      (openDependencies dependsOn remaining.toList name).isEmpty := by
    apply NameSet.ext_mem
    intro name
    rw [tracks.ready, NameSet.mem_filter, ← toList_remainingOf, ← isEmpty_iff]
    exact and_congr_right fun present => and_iff_right (held name present)
  rw [same]
  rfl

theorem Tracks.closesCyclesOnly_eq (present : name ∈ remaining) :
    schedule.closesCyclesOnly name =
      DeclarationOrder.closesCyclesOnly dependsOn remaining.toList name := by
  have explored (dependency : String) :
      Graph.reaches schedule.waiting schedule.pending.keys.toList dependency name =
        Graph.reaches (openDependencies dependsOn remaining.toList) remaining.toList
          dependency name := by
    unfold Graph.reaches
    rw [tracks.keys_eq, Graph.explore_congr fun node member => tracks.waiting_eq member]
  unfold Schedule.closesCyclesOnly DeclarationOrder.closesCyclesOnly
  simp only [explored, tracks.waiting_eq present]

end Advancing

/-- The remaining names without one that is declared. -/
theorem toList_erase (remaining : NameSet) (name : String) :
    (remaining.erase name).toList = remaining.toList.erase name := by
  have nodup : remaining.toList.Nodup := remaining.sorted.imp fun less => String.ne_of_lt less
  exact (nodup.erase_eq_filter name).symm

theorem next_of_find? {dependsOn : String → NameSet} {first name : String} {rest : List String}
    (free : (first :: rest).find? (fun name =>
      (openDependencies dependsOn (first :: rest) name).isEmpty) = some name) :
    next dependsOn first rest = (name, false) := by
  simp only [next, free]

theorem next_of_find?_eq_none {dependsOn : String → NameSet} {first : String} {rest : List String}
    (held : (first :: rest).find? (fun name =>
      (openDependencies dependsOn (first :: rest) name).isEmpty) = none) :
    next dependsOn first rest = (((first :: rest).find?
      (DeclarationOrder.closesCyclesOnly dependsOn (first :: rest))).getD first, true) := by
  simp only [next, held]
  cases (first :: rest).find? (DeclarationOrder.closesCyclesOnly dependsOn (first :: rest)) <;> rfl

/-- From where it tracks the remaining members, a schedule declares them as a search from scratch at
each step does. -/
theorem advance_eq_place {dependsOn : String → NameSet} {dependents : NameMap NameSet}
    (inverts : Inverts dependents dependsOn) {remaining : NameSet} {schedule : Schedule}
    (tracks : Tracks dependsOn remaining schedule) (held : ∀ name ∈ remaining, dependsOn name ≠ ∅) :
    advance dependents schedule = place dependsOn remaining.toList := by
  have keys : schedule.pending.keys.toList = remaining.toList := by rw [tracks.keys_eq]
  have later (name : String) (present : name ∈ remaining) :
      advance dependents ((schedule.takeReady name).declare dependents name) =
        place dependsOn (remaining.toList.erase name) := by
    have := NameSet.size_erase_lt present
    rw [advance_eq_place inverts (tracks.declare inverts)
      fun other member => held other (NameSet.mem_erase.1 member).1, toList_erase]
  have found : schedule.ready.toList.head? = remaining.toList.find? fun name =>
      (openDependencies dependsOn remaining.toList name).isEmpty := by
    rw [tracks.toList_ready held, List.head?_filter]
  rw [advance]
  split
  · rename_i exhausted
    rw [← keys, exhausted, place]
  · rename_i first rest listing
    rw [keys] at listing
    have member {name : String} (listed : name ∈ first :: rest) : name ∈ remaining :=
      NameSet.mem_toList.1 (listing ▸ listed)
    rw [listing, place]
    split
    · rename_i name others ready
      rw [ready, listing] at found
      have present := member (List.mem_of_find?_eq_some found.symm)
      rw [dif_pos (tracks.contains_iff.2 present), later name present, listing,
        next_of_find? found.symm]
    · rename_i none_ready
      rw [none_ready, listing] at found
      have closes : (first :: rest).find? schedule.closesCyclesOnly = (first :: rest).find?
          (DeclarationOrder.closesCyclesOnly dependsOn (first :: rest)) := by
        refine List.find?_congr fun name listed => ?_
        rw [tracks.closesCyclesOnly_eq (member listed), listing]
      have absent (name : String) : name ∉ schedule.ready := by
        rw [← NameSet.mem_toList, none_ready]
        exact List.not_mem_nil
      have after := later _ (member (schedule.mem_chosen first rest))
      rw [takeReady_of_not_mem (absent _), listing] at after
      rw [next_of_find?_eq_none found.symm, ← closes]
      exact congrArg (_ :: ·) after
termination_by remaining.size

section Members

variable {members : Members}

theorem mem_otherMembers {name other : String} {references : List String} :
    other ∈ otherMembers members name references ↔
      other ∈ references ∧ other ≠ name ∧ other ∈ names members := by
  simp [otherMembers, NameSet.contains]

/-- What one occurrence of a member adds to what is known of the members. -/
theorem mem_alter {map : NameMap NameSet} {key name other : String}
    {change : Option NameSet → NameSet} :
    other ∈ ((map.alter key change).get? name).getD ∅ ↔
      if name = key then other ∈ change (map.get? key) else other ∈ (map.get? name).getD ∅ := by
  rw [NameMap.get?_alter]
  split <;> rfl

theorem isSome_foldl_dependencies (work : Members) (map : NameMap NameSet) (name : String) :
    ((work.foldl (fun map (name, references) =>
        map.alter name fun known => (known.getD ∅).union (otherMembers members name references))
      map).get? name).isSome ↔ (map.get? name).isSome ∨ name ∈ work.map Prod.fst := by
  induction work generalizing map with
  | nil => simp
  | cons entry rest ih =>
    rw [List.foldl_cons, ih, NameMap.get?_alter, List.map_cons, List.mem_cons]
    by_cases here : name = entry.1 <;> simp [here]

theorem mem_foldl_dependencies (work : Members) (map : NameMap NameSet) (name other : String) :
    other ∈ ((work.foldl (fun map (name, references) =>
        map.alter name fun known => (known.getD ∅).union (otherMembers members name references))
      map).get? name).getD ∅ ↔ other ∈ (map.get? name).getD ∅ ∨
        ∃ references, (name, references) ∈ work ∧ other ∈ otherMembers members name references := by
  induction work generalizing map with
  | nil => simp
  | cons entry rest ih =>
    obtain ⟨key, cited⟩ := entry
    rw [List.foldl_cons, ih, mem_alter]
    by_cases here : name = key
    · subst here
      simp only [if_true, NameSet.mem_union, List.mem_cons, Prod.mk.injEq, true_and, or_assoc]
      refine or_congr_right ?_
      constructor
      · rintro (first | ⟨references, listed, later⟩)
        · exact ⟨cited, Or.inl rfl, first⟩
        · exact ⟨references, Or.inr listed, later⟩
      · rintro ⟨references, rfl | listed, found⟩
        · exact Or.inl found
        · exact Or.inr ⟨references, listed, found⟩
    · simp [here]

/-- What a member depends on, by its occurrences. -/
theorem mem_dependencies_iff {name other : String} :
    other ∈ dependencies members name ↔
      ∃ references, (name, references) ∈ members ∧ other ∈ otherMembers members name references := by
  refine dependsOn_iff.trans ?_
  simp only [mem_otherMembers]
  constructor
  · rintro ⟨⟨references, member, cited⟩, rest⟩
    exact ⟨references, member, cited, rest⟩
  · rintro ⟨references, member, cited, rest⟩
    exact ⟨⟨references, member, cited⟩, rest⟩

/-- The map of dependencies tells of each member, under all its occurrences, what it depends on. -/
theorem get?_dependencyMap (members : Members) (name : String) :
    (dependencyMap members).get? name =
      if name ∈ names members then some (dependencies members name) else none := by
  have known := @isSome_foldl_dependencies members members ∅ name
  have values := @mem_foldl_dependencies members members ∅ name
  rw [← dependencyMap] at known
  simp only [NameMap.get?_empty, Option.isSome_none, Bool.false_eq_true, false_or,
    ← mem_names_iff] at known
  cases found : (dependencyMap members).get? name with
  | none =>
    rw [found] at known
    rw [if_neg fun listed => by simpa using known.2 listed]
  | some known_dependencies =>
    rw [found] at known
    rw [if_pos (known.1 rfl)]
    congr 1
    apply NameSet.ext_mem
    intro other
    have value := values other
    rw [← dependencyMap, found] at value
    simpa [mem_dependencies_iff] using value

theorem mem_foldl_dependents (user : String) (dependencies : List String) (map : NameMap NameSet)
    (name other : String) :
    other ∈ ((dependencies.foldl (fun map dependency =>
        map.alter dependency fun known => (known.getD ∅).insert user) map).get? name).getD ∅ ↔
      other ∈ (map.get? name).getD ∅ ∨ other = user ∧ name ∈ dependencies := by
  induction dependencies generalizing map with
  | nil => simp
  | cons dependency rest ih =>
    rw [List.foldl_cons, ih, mem_alter]
    by_cases here : name = dependency
    · subst here
      simp only [if_true, NameSet.mem_insert, List.mem_cons, true_or, and_true]
      tauto
    · simp [here]

/-- The map of dependents tells who depends on a name. -/
theorem inverts_dependentMap (members : Members) :
    Inverts (dependentMap members) (dependencies members) := by
  have run (work : Members) (map : NameMap NameSet) (name user : String) :
      user ∈ ((work.foldl (fun map (name, references) =>
          (otherMembers members name references).toList.foldl (fun map dependency =>
            map.alter dependency fun known => (known.getD ∅).insert name) map) map).get? name).getD ∅ ↔
        user ∈ (map.get? name).getD ∅ ∨
          ∃ references, (user, references) ∈ work ∧ name ∈ otherMembers members user references := by
    induction work generalizing map with
    | nil => simp
    | cons entry rest ih =>
      obtain ⟨key, cited⟩ := entry
      rw [List.foldl_cons, ih, mem_foldl_dependents, or_assoc]
      refine or_congr_right ?_
      simp only [List.mem_cons, Prod.mk.injEq, NameSet.mem_toList]
      constructor
      · rintro (⟨rfl, first⟩ | ⟨references, listed, later⟩)
        · exact ⟨cited, Or.inl ⟨rfl, rfl⟩, first⟩
        · exact ⟨references, Or.inr listed, later⟩
      · rintro ⟨references, ⟨rfl, rfl⟩ | listed, found⟩
        · exact Or.inl ⟨rfl, found⟩
        · exact Or.inr ⟨references, listed, found⟩
  intro name user
  rw [dependentMap, run, mem_dependencies_iff]
  simp

/-- Members without dependencies need nothing to be declared first, in any order. -/
theorem tracks_foldl_declare {dependsOn : String → NameSet} {dependents : NameMap NameSet}
    (inverts : Inverts dependents dependsOn) {free : List String}
    (all_independent : ∀ name ∈ free, dependsOn name = ∅)
    {remaining : NameSet} {schedule : Schedule} (tracks : Tracks dependsOn remaining schedule) :
    Tracks dependsOn (remaining.filter fun name => !free.contains name)
      (free.foldl (declare dependents) schedule) := by
  induction free generalizing remaining schedule with
  | nil => simpa [NameSet.filter] using tracks
  | cons name rest ih =>
    obtain ⟨independent, all_independent⟩ := List.forall_mem_cons.1 all_independent
    have absent : name ∉ schedule.ready := fun ready =>
      ((tracks.ready name).1 ready).2.1 independent
    have next : Tracks dependsOn (remaining.erase name)
        ((schedule.takeReady name).declare dependents name) := tracks.declare inverts
    rw [takeReady_of_not_mem absent] at next
    have after := ih all_independent next
    have same : (remaining.erase name).filter (fun name => !rest.contains name) =
        remaining.filter fun other => !(name :: rest).contains other := by
      apply NameSet.ext_mem
      intro other
      simp only [NameSet.mem_filter, NameSet.mem_erase, List.contains_cons, Bool.not_or,
        Bool.and_eq_true, Bool.not_eq_true', beq_eq_false_iff_ne, and_assoc]
    rwa [same] at after

theorem tracks_start (members : Members) :
    Tracks (dependencies members) (names members) ⟨dependencyMap members, ∅⟩ := by
  have all (name : String) :
      remainingOf (dependencies members) (names members) name = dependencies members name := by
    apply NameSet.ext_mem
    intro other
    rw [mem_remainingOf]
    exact ⟨And.left, fun depends => ⟨depends, (dependsOn_iff.1 depends).2.2⟩⟩
  constructor
  · intro name
    rw [all]
    exact get?_dependencyMap members name
  · intro name
    rw [all]
    simp only [NameSet.not_mem_empty, false_iff]
    rintro ⟨-, dependent, independent⟩
    exact dependent independent

/-- The members that a schedule declares before all others are those without dependencies. -/
theorem free_eq (members : Members) :
    ((dependencyMap members).entries.filter (·.2.isEmpty)).map Prod.fst =
      (names members).toList.filter fun name => (dependencies members name).isEmpty := by
  refine @Listing.eq_of_mem_iff String id _ _
    ((dependencyMap members).sorted.sublist (List.filter_sublist.map _))
    ((names members).sorted.filter _) ?_
  intro name
  rw [List.mem_filter, NameSet.mem_toList]
  constructor
  · intro listed
    obtain ⟨⟨_, known⟩, member, rfl⟩ := List.mem_map.1 listed
    obtain ⟨entry, independent⟩ := List.mem_filter.1 member
    have found := NameMap.mem_entries_iff.1 entry
    rw [get?_dependencyMap] at found
    split at found
    · rename_i present
      cases found
      exact ⟨present, independent⟩
    · cases found
  · rintro ⟨present, independent⟩
    have found := get?_dependencyMap members name
    rw [if_pos present] at found
    exact List.mem_map.2 ⟨_, List.mem_filter.2 ⟨NameMap.mem_entries_iff.2 found, independent⟩, rfl⟩

/-- A schedule finds the declaration order. -/
theorem order_eq_ofMembers (members : Members) : order members = ofMembers members := by
  have inverts := inverts_dependentMap members
  have independent : ∀ name ∈ (names members).toList.filter fun name =>
      (dependencies members name).isEmpty, dependencies members name = ∅ :=
    fun name free => isEmpty_iff.1 (List.mem_filter.1 free).2
  have tracks := tracks_foldl_declare inverts independent (tracks_start members)
  have rest : (names members).toList.filter (fun name => !((names members).toList.filter fun name =>
      (dependencies members name).isEmpty).contains name) =
        (names members).toList.filter fun name => !(dependencies members name).isEmpty := by
    refine List.filter_congr fun name present => ?_
    rw [Bool.eq_iff_iff]
    simp [List.mem_filter, present]
  have placed := advance_eq_place inverts tracks fun name present => by
    obtain ⟨listed, held⟩ := NameSet.mem_filter.1 present
    intro depends_on_none
    simp [List.mem_filter, listed, isEmpty_iff.2 depends_on_none] at held
  have placed : advance (dependentMap members) (((names members).toList.filter fun name =>
      (dependencies members name).isEmpty).foldl (declare (dependentMap members))
        ⟨dependencyMap members, ∅⟩) =
      place (dependencies members)
        ((names members).toList.filter fun name => !(dependencies members name).isEmpty) :=
    rest ▸ placed
  unfold order ofMembers
  simp only [free_eq, placed]

end Members

end Schedule

end ZodModules
