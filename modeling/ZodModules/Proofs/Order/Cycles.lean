import ZodModules.Proofs.Order.Precedence

/-!
# Ties and cycles

A declaration order breaks a tie exactly if the members refer to one another in a cycle. A member
that waits for nothing lies on no cycle, so removing it keeps all cycles; where every member waits
for another one, there is a cycle.
-/

namespace ZodModules.DeclarationOrder

open Relation (TransGen ReflTransGen)

/-- A path that can be continued leads through targets only that have a successor themselves. -/
theorem transGen_of_successor {α : Type} {r : α → α → Prop} {a b c : α} (path : TransGen r a b)
    (next : r b c) : TransGen (fun x y => r x y ∧ ∃ z, r y z) a b := by
  induction path generalizing c with
  | single step => exact .single ⟨step, c, next⟩
  | tail _ step ih => exact (ih step).tail ⟨step, c, next⟩

/-- A cycle leads through targets only that have a successor themselves. -/
theorem transGen_of_cycle {α : Type} {r : α → α → Prop} {a : α} (cycle : TransGen r a a) :
    TransGen (fun x y => r x y ∧ ∃ z, r y z) a a := by
  obtain ⟨next, step, -⟩ := TransGen.head'_iff.1 cycle
  exact transGen_of_successor cycle step

section Place

variable {dependsOn : String → NameSet}

/-- Some of the remaining members wait for one another in a cycle. -/
def HasCycle (dependsOn : String → NameSet) (remaining : List String) : Prop :=
  ∃ name, TransGen (Waits dependsOn remaining) name name

/-- A member that is declared without breaking a tie waits for nothing. -/
theorem not_waits_of_next {first : String} {rest : List String}
    (free : (next dependsOn first rest).2 = false) (other : String) :
    ¬ Waits dependsOn (first :: rest) (next dependsOn first rest).1 other := by
  simp only [next] at free ⊢
  split at free
  · rename_i name found
    have empty := List.find?_some found
    rw [List.isEmpty_iff, List.eq_nil_iff_forall_not_mem] at empty
    exact fun waits => empty other (mem_openDependencies.2 waits)
  · split at free
    · cases free
    · cases free

/-- Members that all wait for others wait for one another in a cycle. -/
theorem hasCycle_of_forall_waits {remaining : List String} (nonempty : remaining ≠ [])
    (all : ∀ name ∈ remaining, ∃ other, Waits dependsOn remaining name other) :
    HasCycle dependsOn remaining := by
  obtain ⟨name, member, closes⟩ :
      ∃ name ∈ remaining, closesCyclesOnly dependsOn remaining name :=
    exists_closesCyclesOnly nonempty
  obtain ⟨other, waits⟩ := all name member
  exact ⟨name, TransGen.head' waits (closesCyclesOnly_iff.1 closes other waits)⟩

/-- Declaring a member that waits for nothing leaves the cycles as they are. -/
theorem hasCycle_erase_iff {remaining : List String} {chosen : String}
    (free : ∀ other, ¬ Waits dependsOn remaining chosen other) :
    HasCycle dependsOn (remaining.erase chosen) ↔ HasCycle dependsOn remaining := by
  constructor
  · rintro ⟨name, cycle⟩
    refine ⟨name, TransGen.mono (fun _ _ step => ?_) _ _ cycle⟩
    exact ⟨step.1, List.mem_of_mem_erase step.2⟩
  · rintro ⟨name, cycle⟩
    refine ⟨name, TransGen.mono (fun source target step => ?_) _ _ (transGen_of_cycle cycle)⟩
    obtain ⟨⟨depends, present⟩, next, waits⟩ := step
    have different : target ≠ chosen := fun same => free next (same ▸ waits)
    exact ⟨depends, (List.mem_erase_of_ne different).2 present⟩

/-- A tie is broken exactly if the remaining members wait for one another in a cycle. -/
theorem exists_tie_iff (remaining : List String) :
    (∃ placed ∈ place dependsOn remaining, placed.2 = true) ↔ HasCycle dependsOn remaining := by
  fun_induction place dependsOn remaining with
  | case1 =>
    simp only [List.not_mem_nil, false_and, exists_false, false_iff]
    rintro ⟨name, cycle⟩
    obtain ⟨before, -, waits⟩ := TransGen.tail'_iff.1 cycle
    exact List.not_mem_nil waits.2
  | case2 first rest chosen ih =>
    rw [List.exists_mem_cons_iff, ih]
    cases ties : chosen.2 with
    | true =>
      refine iff_of_true (Or.inl rfl) ?_
      exact hasCycle_of_forall_waits (List.cons_ne_nil first rest) ((next_spec first rest).2.1 ties)
    | false =>
      rw [hasCycle_erase_iff (not_waits_of_next ties)]
      simp

end Place

section Members

variable {members : Members}

/-- A member refers to a different member. -/
def Refers (members : Members) (name other : String) : Prop :=
  (∃ references, (name, references) ∈ members ∧ other ∈ references) ∧ other ≠ name ∧
    other ∈ members.map Prod.fst

theorem dependsOn_eq_refers (members : Members) : DependsOn members = Refers members := by
  funext name other
  rw [dependsOn_iff, mem_names_iff]
  rfl

theorem mem_names_of_dependsOn {name other : String} (h : DependsOn members name other) :
    name ∈ names members := by
  obtain ⟨⟨references, member, -⟩, -, -⟩ := dependsOn_iff.1 h
  exact mem_names_iff.2 (List.mem_map.2 ⟨_, member, rfl⟩)

/-- All cycles of dependencies lie among the members that have dependencies. -/
theorem hasCycle_held_iff :
    HasCycle (dependencies members)
        ((names members).toList.filter fun name => !(dependencies members name).isEmpty) ↔
      ∃ name, TransGen (DependsOn members) name name := by
  constructor
  · rintro ⟨name, cycle⟩
    exact ⟨name, TransGen.mono (fun _ _ step => step.1) _ _ cycle⟩
  · rintro ⟨name, cycle⟩
    refine ⟨name, TransGen.mono (fun source target step => ?_) _ _ (transGen_of_cycle cycle)⟩
    obtain ⟨depends, next, further⟩ := step
    refine ⟨depends, List.mem_filter.2 ⟨mem_names_of_dependsOn further, ?_⟩⟩
    rw [Bool.not_eq_true', NameSet.isEmpty, List.isEmpty_eq_false_iff_exists_mem]
    exact ⟨next, further⟩

theorem tieBreaks_ne_nil_iff :
    (ofMembers members).tieBreaks ≠ [] ↔ ∃ name, TransGen (DependsOn members) name name := by
  rw [← hasCycle_held_iff, ← exists_tie_iff]
  show ((place _ _).filter Prod.snd).map Prod.fst ≠ [] ↔ _
  rw [ne_eq, List.map_eq_nil_iff, List.filter_eq_nil_iff]
  simp only [not_forall, not_not, exists_prop]

/-- The declaration order of some members lists each name of a member once. A member that another
one refers to stands before it unless it leads back to it, and ties are broken exactly if the
references between different members hold a cycle. -/
theorem ofMembers_is_topological (members : Members) :
    ((ofMembers members).order.Nodup ∧
      ∀ name, name ∈ (ofMembers members).order ↔ name ∈ members.map Prod.fst) ∧
    (∀ name other, Refers members name other →
      [other, name].Sublist (ofMembers members).order ∨ TransGen (Refers members) other name) ∧
    ((ofMembers members).tieBreaks ≠ [] ↔ ∃ name, TransGen (Refers members) name name) := by
  rw [← dependsOn_eq_refers]
  refine ⟨⟨order_nodup members, ?_⟩, ?_, tieBreaks_ne_nil_iff⟩
  · intro name
    rw [(order_perm members).mem_iff, NameSet.mem_toList, mem_names_iff]
  · intro name other depends
    exact order_precedes depends (mem_names_of_dependsOn depends)

end Members

end ZodModules.DeclarationOrder
