import ZodModules.Proofs.Order.Cycles
import ZodModules.Proofs.Order.Scheduling

/-!
# The canonical order

A declaration order said without an algorithm: at each point it goes on with the least of the
members whose references are all declared or, if there is none, with the least of those that are
held back by nothing but their own cycles. This leaves no choice, so the order and the ties depend
on which members there are and on which refer to which, and on nothing else.
-/

namespace ZodModules.DeclarationOrder

open Relation (ReflTransGen)

/-- Some names of which some refer to others. -/
structure ReferenceGraph where
  member : String → Prop
  refers : String → String → Prop

/-- Members and which of them refer to different ones. -/
def graphOf (members : Members) : ReferenceGraph :=
  ⟨(· ∈ members.map Prod.fst), Refers members⟩

/-- A name has a property, and all others that have it come later. -/
def IsLeast (property : String → Prop) (name : String) : Prop :=
  property name ∧ ∀ other, property other → other ≠ name → name < other

theorem IsLeast.unique {property : String → Prop} {name other : String}
    (least : IsLeast property name) (least' : IsLeast property other) : name = other := by
  by_contra different
  exact String.lt_asymm (least.2 other least'.1 (Ne.symm different)) (least'.2 name least.1 different)

namespace ReferenceGraph

variable {graph : ReferenceGraph} {declared : List String}

/-- A member is still to be declared. -/
def Remains (graph : ReferenceGraph) (declared : List String) (name : String) : Prop :=
  graph.member name ∧ name ∉ declared

/-- All that a remaining member refers to is declared. -/
def Ready (graph : ReferenceGraph) (declared : List String) (name : String) : Prop :=
  graph.Remains declared name ∧ ∀ other, graph.refers name other → other ∈ declared

/-- A name refers to one that is not declared. -/
def Awaits (graph : ReferenceGraph) (declared : List String) (name other : String) : Prop :=
  graph.refers name other ∧ other ∉ declared

/-- All that a remaining member refers to and that is not declared leads back to that member, by
references to what is not declared. -/
def LeadsBack (graph : ReferenceGraph) (declared : List String) (name : String) : Prop :=
  graph.Remains declared name ∧
    ∀ other, graph.Awaits declared name other → ReflTransGen (graph.Awaits declared) other name

/-- How the order and the ties go on from where some members are declared. -/
inductive Continues (graph : ReferenceGraph) :
    (declared order tieBreaks : List String) → Prop where
  | done {declared : List String} (all : ∀ name, ¬ graph.Remains declared name) :
      Continues graph declared [] []
  | ready {declared order tieBreaks : List String} {name : String}
      (least : IsLeast (graph.Ready declared) name)
      (later : Continues graph (declared ++ [name]) order tieBreaks) :
      Continues graph declared (name :: order) tieBreaks
  | tie {declared order tieBreaks : List String} {name : String}
      (held : ∀ other, ¬ graph.Ready declared other)
      (least : IsLeast (graph.LeadsBack declared) name)
      (later : Continues graph (declared ++ [name]) order tieBreaks) :
      Continues graph declared (name :: order) (name :: tieBreaks)

/-- An order starts with the members that refer to no other one, by name, and goes on from there. -/
def Orders (graph : ReferenceGraph) (found : DeclarationOrder) : Prop :=
  ∃ free later, found.order = free ++ later ∧ free.Pairwise (· < ·) ∧
    (∀ name, name ∈ free ↔ graph.member name ∧ ∀ other, ¬ graph.refers name other) ∧
    graph.Continues free later found.tieBreaks

theorem Continues.unique {order order' tieBreaks tieBreaks' : List String}
    (first : graph.Continues declared order tieBreaks)
    (second : graph.Continues declared order' tieBreaks') :
    order = order' ∧ tieBreaks = tieBreaks' := by
  induction first generalizing order' tieBreaks' with
  | done all =>
    cases second with
    | done => exact ⟨rfl, rfl⟩
    | ready least _ => exact absurd least.1.1 (all _)
    | tie _ least _ => exact absurd least.1.1 (all _)
  | ready least _ ih =>
    cases second with
    | done all => exact absurd least.1.1 (all _)
    | ready least' later' =>
      obtain rfl := least.unique least'
      obtain ⟨rfl, rfl⟩ := ih later'
      exact ⟨rfl, rfl⟩
    | tie held _ _ => exact absurd least.1 (held _)
  | tie held least _ ih =>
    cases second with
    | done all => exact absurd least.1.1 (all _)
    | ready least' _ => exact absurd least'.1 (held _)
    | tie _ least' later' =>
      obtain rfl := least.unique least'
      obtain ⟨rfl, rfl⟩ := ih later'
      exact ⟨rfl, rfl⟩

/-- A graph has one order. -/
theorem Orders.unique {found other : DeclarationOrder} (first : graph.Orders found)
    (second : graph.Orders other) : found = other := by
  obtain ⟨free, later, order, sorted, frees, continues⟩ := first
  obtain ⟨free', later', order', sorted', frees', continues'⟩ := second
  obtain rfl : free = free' := @Listing.eq_of_mem_iff String id _ _ sorted sorted'
    fun name => (frees name).trans (frees' name).symm
  obtain ⟨rfl, ties⟩ := continues.unique continues'
  cases found
  cases other
  cases order.trans order'.symm
  cases ties
  rfl

end ReferenceGraph

section Place

variable {members : Members}

/-- In a sorted list the first name with a property is the least. -/
theorem isLeast_of_find? {property : String → Bool} {names : List String} {name : String}
    (sorted : names.Pairwise (· < ·)) (found : names.find? property = some name) :
    IsLeast (fun other => other ∈ names ∧ property other) name := by
  obtain ⟨holds, before, after, rfl, rejected⟩ := List.find?_eq_some_iff_append.1 found
  refine ⟨⟨List.mem_append_right _ List.mem_cons_self, holds⟩, ?_⟩
  rintro other ⟨listed, also⟩ different
  rcases List.mem_append.1 listed with sooner | later
  · have fails := rejected other sooner
    simp [also] at fails
  · obtain ⟨-, tail, -⟩ := List.pairwise_append.1 sorted
    rcases List.mem_cons.1 later with same | later
    · exact absurd same different
    · exact (List.pairwise_cons.1 tail).1 other later

theorem IsLeast.congr {property property' : String → Prop} {name : String}
    (least : IsLeast property name) (same : ∀ other, property other ↔ property' other) :
    IsLeast property' name :=
  ⟨(same name).1 least.1, fun other also => least.2 other ((same other).2 also)⟩

/-- What is placed next is the least member that waits for nothing or, if each of them waits, the
least one that only its own cycles hold back. -/
theorem isLeast_next {dependsOn : String → NameSet} {first : String} {rest : List String}
    (sorted : (first :: rest).Pairwise (· < ·)) :
    (∃ name, next dependsOn first rest = (name, false) ∧
      IsLeast (fun other => other ∈ first :: rest ∧
        (openDependencies dependsOn (first :: rest) other).isEmpty) name) ∨
    ∃ name, next dependsOn first rest = (name, true) ∧
      (∀ other ∈ first :: rest, ¬ (openDependencies dependsOn (first :: rest) other).isEmpty) ∧
      IsLeast (fun other => other ∈ first :: rest ∧
        closesCyclesOnly dependsOn (first :: rest) other) name := by
  cases free : (first :: rest).find? fun other =>
      (openDependencies dependsOn (first :: rest) other).isEmpty with
  | some name =>
    exact Or.inl ⟨name, Schedule.next_of_find? free, isLeast_of_find? sorted free⟩
  | none =>
    have held := List.find?_eq_none.1 free
    cases closes : (first :: rest).find? (closesCyclesOnly dependsOn (first :: rest)) with
    | some name =>
      refine Or.inr ⟨name, ?_, held, isLeast_of_find? sorted closes⟩
      rw [Schedule.next_of_find?_eq_none free, closes, Option.getD_some]
    | none =>
      obtain ⟨name, member, found⟩ :
          ∃ name ∈ first :: rest, closesCyclesOnly dependsOn (first :: rest) name :=
        exists_closesCyclesOnly (List.cons_ne_nil first rest)
      exact absurd found (List.find?_eq_none.1 closes name member)

section Remaining

variable {declared remaining : List String}
  (left : ∀ name, name ∈ remaining ↔ (graphOf members).Remains declared name)

include left

theorem awaits_iff {name other : String} :
    (graphOf members).Awaits declared name other ↔
      Waits (dependencies members) remaining name other := by
  show Refers members name other ∧ other ∉ declared ↔ DependsOn members name other ∧ _
  rw [dependsOn_eq_refers, left]
  refine and_congr_right fun refers => ?_
  exact ⟨fun fresh => ⟨refers.2.2, fresh⟩, And.right⟩

theorem ready_iff {name : String} :
    (graphOf members).Ready declared name ↔
      name ∈ remaining ∧ (openDependencies (dependencies members) remaining name).isEmpty := by
  unfold ReferenceGraph.Ready
  rw [← left, List.isEmpty_iff, List.eq_nil_iff_forall_not_mem]
  refine and_congr_right fun _ => forall_congr' fun other => ?_
  rw [mem_openDependencies, ← awaits_iff left]
  unfold ReferenceGraph.Awaits
  tauto

theorem leadsBack_iff {name : String} :
    (graphOf members).LeadsBack declared name ↔
      name ∈ remaining ∧ closesCyclesOnly (dependencies members) remaining name := by
  have same : (graphOf members).Awaits declared = Waits (dependencies members) remaining := by
    funext name other
    exact propext (awaits_iff left)
  unfold ReferenceGraph.LeadsBack
  rw [← left, same, closesCyclesOnly_iff]

/-- The remaining members without the one that is declared next. -/
theorem remains_iff_erase (nodup : remaining.Nodup) {chosen name : String} :
    name ∈ remaining.erase chosen ↔ (graphOf members).Remains (declared ++ [chosen]) name := by
  rw [nodup.mem_erase_iff, left]
  unfold ReferenceGraph.Remains
  simp only [List.mem_append, List.mem_singleton, not_or]
  tauto

end Remaining

/-- The members that remain are placed as the order goes on from where the others are declared. -/
theorem continues_place {declared remaining : List String} (sorted : remaining.Pairwise (· < ·))
    (left : ∀ name, name ∈ remaining ↔ (graphOf members).Remains declared name) :
    (graphOf members).Continues declared ((place (dependencies members) remaining).map Prod.fst)
      (((place (dependencies members) remaining).filter Prod.snd).map Prod.fst) := by
  fun_induction place (dependencies members) remaining generalizing declared with
  | case1 => exact .done fun name remains => List.not_mem_nil ((left name).2 remains)
  | case2 first rest chosen =>
    rename_i ih
    have nodup : (first :: rest).Nodup := sorted.imp fun less => String.ne_of_lt less
    have later := ih (sorted.sublist List.erase_sublist) fun name => remains_iff_erase left nodup
    rcases @isLeast_next (dependencies members) first rest sorted with
      ⟨name, found, least⟩ | ⟨name, found, held, least⟩
    · change chosen = _ at found
      rw [found] at later ⊢
      exact .ready (least.congr fun other => (ready_iff left).symm) later
    · change chosen = _ at found
      rw [found] at later ⊢
      refine .tie ?_ (least.congr fun other => (leadsBack_iff left).symm) later
      intro other ready
      obtain ⟨member, free⟩ := (ready_iff left).1 ready
      exact held other member free

theorem isEmpty_dependencies_iff {name : String} :
    (dependencies members name).isEmpty ↔ ∀ other, ¬ Refers members name other := by
  unfold NameSet.isEmpty
  rw [List.isEmpty_iff, List.eq_nil_iff_forall_not_mem, ← dependsOn_eq_refers]
  rfl

theorem orders_ofMembers (members : Members) : (graphOf members).Orders (ofMembers members) := by
  refine ⟨_, _, rfl, (names members).sorted.filter _, ?_, continues_place ?_ ?_⟩
  · intro name
    rw [List.mem_filter, NameSet.mem_toList, mem_names_iff, isEmpty_dependencies_iff]
    rfl
  · exact (names members).sorted.filter _
  · intro name
    simp only [List.mem_filter, ReferenceGraph.Remains, NameSet.mem_toList, mem_names_iff, not_and,
      Bool.not_eq_true', Bool.not_eq_true]
    exact and_congr_right fun member => (imp_iff_right member).symm

end Place

/-- A schedule finds the declaration order, and that order is the one that the references between
different members leave: first the members that refer to no other one, by name, then again and again
the least member whose references are all declared or, if there is none, as the next tie, the least
one whose remaining references all lead back to it. Members with the same names and the same
references between different ones have the same order and the same ties. -/
theorem ofMembers_is_canonical (members : Members) :
    Schedule.order members = ofMembers members ∧
    (graphOf members).Orders (ofMembers members) ∧
    ∀ others : Members,
      (∀ name, name ∈ others.map Prod.fst ↔ name ∈ members.map Prod.fst) →
      (∀ name other, Refers others name other ↔ Refers members name other) →
      ofMembers others = ofMembers members := by
  refine ⟨Schedule.order_eq_ofMembers members, orders_ofMembers members, ?_⟩
  intro others names refers
  have same : graphOf others = graphOf members := by
    have member : (· ∈ others.map Prod.fst) = (· ∈ members.map Prod.fst) :=
      funext fun name => propext (names name)
    have references : Refers others = Refers members :=
      funext fun name => funext fun other => propext (refers name other)
    unfold graphOf
    rw [member, references]
  exact (orders_ofMembers others).unique (same ▸ orders_ofMembers members)

/-- A pair of members that refer to each other and a third that refers to one of them. -/
def pairAndUser : Members := [("B", ["A"]), ("C", ["B"]), ("A", ["B"])]

/-- They have the same order when they come the other way round, with some references told twice and
some that lead to themselves or elsewhere. -/
theorem same_order_pairAndUser :
    ofMembers [("A", ["B", "B"]), ("C", ["C", "Z"]), ("C", ["B"]), ("B", ["A"]), ("A", [])] =
      ofMembers pairAndUser := by
  refine (ofMembers_is_canonical pairAndUser).2.2 _ ?_ ?_
  · intro name
    simp only [pairAndUser, List.map_cons, List.map_nil, List.mem_cons, List.not_mem_nil, or_false]
    tauto
  · intro name other
    simp only [Refers, pairAndUser, List.map_cons, List.map_nil, List.mem_cons, List.not_mem_nil,
      or_false, Prod.mk.injEq, or_and_right, exists_or, and_assoc, exists_and_left, exists_eq_left]
    grind

end ZodModules.DeclarationOrder
