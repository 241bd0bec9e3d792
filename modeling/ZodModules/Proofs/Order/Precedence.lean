import ZodModules.Order.Basic
import ZodModules.Proofs.Data.Listings
import ZodModules.Proofs.Order.Exploration
import Mathlib.Data.Finset.Max
import Mathlib.Data.List.Perm.Lattice
import Mathlib.Data.List.Nodup

/-!
# What stands before what

A declaration order lists every member once, and each member after the members that it depends on
unless these lead back to it. As long as some members remain, one of them is held back by nothing
but cycles of its own, so a tie is never broken against a dependency that leads nowhere else.
-/

namespace ZodModules.DeclarationOrder

open Relation (TransGen ReflTransGen)

section Place

variable {dependsOn : String → NameSet}

/-- A name depends on another one that is still to be declared. -/
def Waits (dependsOn : String → NameSet) (remaining : List String) (name other : String) : Prop :=
  other ∈ dependsOn name ∧ other ∈ remaining

theorem mem_openDependencies {remaining : List String} {name other : String} :
    other ∈ openDependencies dependsOn remaining name ↔ Waits dependsOn remaining name other := by
  simp [openDependencies, Waits]

theorem step_openDependencies {remaining : List String} {name other : String} :
    Graph.Step (openDependencies dependsOn remaining) remaining name other ↔
      Waits dependsOn remaining name other := by
  unfold Graph.Step
  rw [mem_openDependencies]
  exact ⟨And.left, fun waits => ⟨waits, waits.2⟩⟩

theorem closesCyclesOnly_iff {remaining : List String} {name : String} :
    closesCyclesOnly dependsOn remaining name ↔
      ∀ other, Waits dependsOn remaining name other →
        ReflTransGen (Waits dependsOn remaining) other name := by
  have same : Graph.Step (openDependencies dependsOn remaining) remaining =
      Waits dependsOn remaining := by
    funext name other
    exact propext step_openDependencies
  simp only [closesCyclesOnly, List.all_eq_true, mem_openDependencies, Graph.reaches_iff, same]
  constructor
  · intro h other waits
    exact (h other waits).2
  · intro h other waits
    exact ⟨waits.2, h other waits⟩

/-- Among members that all wait for others, one is held back by cycles through itself only: one that
leads to as few names as any. -/
theorem exists_closesCyclesOnly {remaining : List String} (nonempty : remaining ≠ []) :
    ∃ name ∈ remaining, closesCyclesOnly dependsOn remaining name := by
  classical
  let reach (name : String) : Finset String :=
    remaining.toFinset.filter (ReflTransGen (Waits dependsOn remaining) name)
  have inhabited : remaining.toFinset.Nonempty := by
    obtain ⟨name, member⟩ := List.exists_mem_of_ne_nil _ nonempty
    exact ⟨name, List.mem_toFinset.2 member⟩
  obtain ⟨name, member, least⟩ :=
    Finset.exists_min_image _ (fun name => (reach name).card) inhabited
  have inside : name ∈ remaining := List.mem_toFinset.1 member
  refine ⟨name, inside, closesCyclesOnly_iff.2 ?_⟩
  intro other waits
  have sub : reach other ⊆ reach name := by
    intro target found
    obtain ⟨present, path⟩ := Finset.mem_filter.1 found
    exact Finset.mem_filter.2 ⟨present, path.head waits⟩
  have same : reach other = reach name :=
    Finset.eq_of_subset_of_card_le sub (least other (List.mem_toFinset.2 waits.2))
  have back : name ∈ reach other := by
    rw [same]
    exact Finset.mem_filter.2 ⟨member, .refl⟩
  exact (Finset.mem_filter.1 back).2

/-- The member declared next waits for nothing but what waits for it in turn, and it breaks a tie
only if every remaining member waits for another. -/
theorem next_spec (first : String) (rest : List String) :
    (∀ other, Waits dependsOn (first :: rest) (next dependsOn first rest).1 other →
      ReflTransGen (Waits dependsOn (first :: rest)) other (next dependsOn first rest).1) ∧
    ((next dependsOn first rest).2 ↔
      ∀ name ∈ first :: rest, ∃ other, Waits dependsOn (first :: rest) name other) := by
  have isEmpty_iff (name : String) :
      (openDependencies dependsOn (first :: rest) name).isEmpty ↔
        ∀ other, ¬ Waits dependsOn (first :: rest) name other := by
    rw [List.isEmpty_iff, List.eq_nil_iff_forall_not_mem]
    simp only [mem_openDependencies]
  simp only [next]
  split
  · rename_i name found
    have empty := List.find?_some found
    have free := (isEmpty_iff name).1 empty
    refine ⟨fun other waits => absurd waits (free other), ?_⟩
    simp only [Bool.false_eq_true, false_iff]
    intro all
    obtain ⟨other, waits⟩ := all name (List.mem_of_find?_eq_some found)
    exact free other waits
  · rename_i allHeld
    have all : ∀ name ∈ first :: rest, ∃ other, Waits dependsOn (first :: rest) name other := by
      intro name member
      have held := List.find?_eq_none.1 allHeld name member
      rw [isEmpty_iff] at held
      exact not_forall_not.1 held
    split
    · rename_i name found
      exact ⟨closesCyclesOnly_iff.1 (List.find?_some found), by simpa using all⟩
    · rename_i nowhere
      obtain ⟨name, member, closes⟩ :
          ∃ name ∈ first :: rest, closesCyclesOnly dependsOn (first :: rest) name :=
        exists_closesCyclesOnly (List.cons_ne_nil first rest)
      exact absurd closes (List.find?_eq_none.1 nowhere name member)

theorem place_perm (dependsOn : String → NameSet) (remaining : List String) :
    ((place dependsOn remaining).map Prod.fst).Perm remaining := by
  fun_induction place dependsOn remaining with
  | case1 => exact .refl _
  | case2 first rest chosen ih =>
    rw [List.map_cons]
    exact (ih.cons _).trans (List.perm_cons_erase (next_mem dependsOn first rest)).symm

/-- Of two remaining members, the one that the other depends on is placed first, unless it leads
back to the other. -/
theorem place_precedes {remaining : List String} {name other : String} (member : name ∈ remaining)
    (waits : Waits dependsOn remaining name other) :
    [other, name].Sublist ((place dependsOn remaining).map Prod.fst) ∨
      ReflTransGen (Waits dependsOn remaining) other name := by
  fun_induction place dependsOn remaining with
  | case1 => simp at member
  | case2 first rest chosen ih =>
    by_cases now : name = chosen.1
    · rw [now] at waits ⊢
      exact Or.inr ((next_spec first rest).1 other waits)
    · have later : name ∈ (first :: rest).erase chosen.1 := (List.mem_erase_of_ne now).2 member
      rw [List.map_cons]
      by_cases sooner : other = chosen.1
      · left
        rw [sooner]
        apply List.Sublist.cons_cons
        rw [List.singleton_sublist]
        exact (place_perm dependsOn _).mem_iff.2 later
      · have still : other ∈ (first :: rest).erase chosen.1 :=
          (List.mem_erase_of_ne sooner).2 waits.2
        rcases ih later ⟨waits.1, still⟩ with before | path
        · exact Or.inl (before.cons _)
        · right
          exact ReflTransGen.mono
            (fun _ _ step => ⟨step.1, List.mem_of_mem_erase step.2⟩) _ _ path

end Place

section Members

variable {members : Members}

/-- A member refers to another one. -/
def DependsOn (members : Members) (name other : String) : Prop :=
  other ∈ dependencies members name

theorem mem_names_iff {name : String} : name ∈ names members ↔ name ∈ members.map Prod.fst :=
  NameSet.mem_ofList

theorem dependsOn_iff {name other : String} :
    DependsOn members name other ↔
      (∃ references, (name, references) ∈ members ∧ other ∈ references) ∧ other ≠ name ∧
        other ∈ names members := by
  unfold DependsOn dependencies
  simp only [NameSet.mem_ofList, List.mem_filter, List.mem_flatMap, Bool.and_eq_true, bne_iff_ne,
    NameSet.contains, decide_eq_true_eq, beq_iff_eq]
  constructor
  · rintro ⟨⟨⟨source, references⟩, ⟨member, rfl⟩, cited⟩, rest⟩
    exact ⟨⟨references, member, cited⟩, rest⟩
  · rintro ⟨⟨references, member, cited⟩, rest⟩
    exact ⟨⟨(name, references), ⟨member, rfl⟩, cited⟩, rest⟩

theorem order_perm (members : Members) : (ofMembers members).order.Perm (names members).toList := by
  refine (List.Perm.append_left _ (place_perm _ _)).trans ?_
  exact List.filter_append_perm (fun name => (dependencies members name).isEmpty) _

theorem order_nodup (members : Members) : (ofMembers members).order.Nodup :=
  (order_perm members).nodup_iff.2 ((names members).sorted.imp fun h => String.ne_of_lt h)

/-- A member that another one depends on stands before it, unless it leads back to it. -/
theorem order_precedes {name other : String} (depends : DependsOn members name other)
    (member : name ∈ names members) :
    [other, name].Sublist (ofMembers members).order ∨
      TransGen (DependsOn members) other name := by
  obtain ⟨-, different, present⟩ := dependsOn_iff.1 depends
  have isEmpty_iff (name : String) :
      (dependencies members name).isEmpty ↔ ∀ other, ¬ DependsOn members name other := by
    unfold NameSet.isEmpty
    rw [List.isEmpty_iff, List.eq_nil_iff_forall_not_mem]
    rfl
  have held : name ∈ (names members).toList.filter
      fun name => !(dependencies members name).isEmpty := by
    refine List.mem_filter.2 ⟨member, ?_⟩
    rw [Bool.not_eq_true', Bool.eq_false_iff, ne_eq, isEmpty_iff]
    exact fun free => free other depends
  by_cases free : (dependencies members other).isEmpty
  · left
    show [other, name].Sublist (_ ++ _)
    have first : [other].Sublist ((names members).toList.filter
        fun name => (dependencies members name).isEmpty) :=
      List.singleton_sublist.2 (List.mem_filter.2 ⟨present, free⟩)
    have second : [name].Sublist ((place (dependencies members) ((names members).toList.filter
        fun name => !(dependencies members name).isEmpty)).map Prod.fst) :=
      List.singleton_sublist.2 ((place_perm _ _).mem_iff.2 held)
    exact first.append second
  · have waiting : other ∈ (names members).toList.filter
        fun name => !(dependencies members name).isEmpty :=
      List.mem_filter.2 ⟨present, by simpa using free⟩
    rcases place_precedes held ⟨depends, waiting⟩ with before | path
    · exact Or.inl (before.trans (List.sublist_append_right _ _))
    · right
      have path : ReflTransGen (DependsOn members) other name :=
        ReflTransGen.mono (fun _ _ step => step.1) _ _ path
      rcases path.cases_head with same | ⟨next, step, path⟩
      · exact absurd same different
      · exact TransGen.head' step path

end Members

section Arrange

variable {α : Type} {name : α → String}

theorem unplaced_eq_nil {names : List String} {items : List α}
    (nodup : (items.map name).Nodup) (all : ∀ item ∈ items, name item ∈ names) :
    unplaced name names items = [] := by
  induction items generalizing names with
  | nil => rfl
  | cons item rest ih =>
    obtain ⟨fresh, nodup⟩ := List.nodup_cons.1 nodup
    rw [unplaced, if_pos (List.contains_iff_mem.2 (all item List.mem_cons_self))]
    apply ih nodup
    intro other member
    have different : name other ≠ name item := fun same =>
      fresh (same ▸ List.mem_map_of_mem member)
    exact (List.mem_erase_of_ne different).2 (all other (List.mem_cons_of_mem _ member))

theorem find?_name_eq_some {items : List α} (nodup : (items.map name).Nodup) {item : α}
    (member : item ∈ items) : items.find? (name · == name item) = some item := by
  induction items with
  | nil => simp at member
  | cons first rest ih =>
    obtain ⟨fresh, nodup⟩ := List.nodup_cons.1 nodup
    rcases List.mem_cons.1 member with rfl | member
    · simp
    · have different : name first ≠ name item := by
        intro same
        rw [same] at fresh
        exact fresh (List.mem_map_of_mem member)
      rw [List.find?_cons_of_neg (by simpa using different), ih nodup member]

theorem unplaced_map {β : Type} (f : β → α) (names : List String) (items : List β) :
    unplaced name names (items.map f) = (unplaced (fun item => name (f item)) names items).map f := by
  induction items generalizing names with
  | nil => rfl
  | cons first rest ih =>
    rw [List.map_cons, unplaced, unplaced]
    split
    · exact ih _
    · rw [List.map_cons, ih]

/-- Nothing but the names of items decides where they go. -/
theorem arrange_map {β : Type} (order : DeclarationOrder) (f : β → α) (items : List β) :
    order.arrange name (items.map f) =
      (order.arrange (fun item => name (f item)) items).map f := by
  simp only [arrange, unplaced_map, List.map_append, List.map_filterMap, List.find?_map,
    Function.comp_def]

section

variable {order : DeclarationOrder} {items : List α} (nodup : (items.map name).Nodup)
  (perm : order.order.Perm (items.map name))

include nodup perm

/-- Items with distinct names and an order of just these names: nothing is left over. -/
theorem arrange_eq_filterMap :
    order.arrange name items = order.order.filterMap fun n => items.find? (name · == n) := by
  have none_left : unplaced name order.order items = [] :=
    unplaced_eq_nil nodup fun item member => perm.mem_iff.2 (List.mem_map_of_mem member)
  unfold arrange
  simp only [Listing.eraseDups_of_nodup (perm.nodup_iff.2 nodup), none_left, List.append_nil]

theorem map_name_arrange : (order.arrange name items).map name = order.order := by
  have found (n : String) (member : n ∈ order.order) :
      (items.find? (name · == n)).map name = some n := by
    obtain ⟨item, present, rfl⟩ := List.mem_map.1 (perm.mem_iff.1 member)
    rw [find?_name_eq_some nodup present]
    rfl
  rw [arrange_eq_filterMap nodup perm, List.map_filterMap, List.filterMap_congr found,
    List.filterMap_some]

theorem arrange_perm : (order.arrange name items).Perm items := by
  have names := map_name_arrange nodup perm
  have distinct : (order.arrange name items).Nodup :=
    .of_map name (names ▸ perm.nodup_iff.2 nodup)
  have sub : order.arrange name items ⊆ items := by
    intro item member
    rw [arrange_eq_filterMap nodup perm] at member
    obtain ⟨n, -, found⟩ := List.mem_filterMap.1 member
    exact List.mem_of_find?_eq_some found
  apply (distinct.subperm sub).perm_of_length_le
  have lengths := congrArg List.length names
  rw [List.length_map, perm.length_eq, List.length_map] at lengths
  omega

/-- Where one name stands before another in the order, so do the items that bear them. -/
theorem sublist_arrange {first second : α} (first_mem : first ∈ items) (second_mem : second ∈ items)
    (before : [name first, name second].Sublist order.order) :
    [first, second].Sublist (order.arrange name items) := by
  rw [← map_name_arrange nodup perm, List.sublist_map_iff] at before
  obtain ⟨pair, sub, names⟩ := before
  have injective {a b : α} (ha : a ∈ items) (hb : b ∈ items) (same : name a = name b) : a = b :=
    List.inj_on_of_nodup_map nodup ha hb same
  have member {item : α} (inside : item ∈ pair) : item ∈ items :=
    (arrange_perm nodup perm).mem_iff.1 (sub.subset inside)
  obtain ⟨a, b, rfl⟩ : ∃ a b, pair = [a, b] := by
    have length := congrArg List.length names
    rw [List.length_map] at length
    exact List.length_eq_two.1 length.symm
  · simp only [List.map_cons, List.map_nil, List.cons.injEq, and_true] at names
    rw [injective first_mem (member List.mem_cons_self) names.1,
      injective second_mem (member (List.mem_cons_of_mem _ List.mem_cons_self)) names.2]
    exact sub

end

end Arrange

end ZodModules.DeclarationOrder
