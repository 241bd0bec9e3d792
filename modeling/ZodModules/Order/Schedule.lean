import ZodModules.Order.Basic
import ZodModules.Data.NameMap

/-!
# Schedules

The declaration order found step by step. A schedule knows of each member that is still to be
declared which dependencies it waits for, and which members wait for nothing any more. To declare a
member takes it off what its dependents wait for, so no step looks at all dependencies again.
-/

namespace ZodModules

/-- How far the declaration of some members has come. -/
structure Schedule where
  /-- The members still to be declared, each with the dependencies that it waits for. -/
  pending : NameMap NameSet
  /-- Those of them that have been waiting and wait for nothing any more. -/
  ready : NameSet

namespace Schedule

open DeclarationOrder (Members names)

/-- The other members among the references of a member. -/
def otherMembers (members : Members) (name : String) (references : List String) : NameSet :=
  NameSet.ofList (references.filter fun r => r != name && (names members).contains r)

/-- The dependencies of each member, under all its occurrences. -/
def dependencyMap (members : Members) : NameMap NameSet :=
  members.foldl (fun map (name, references) =>
    map.alter name fun known => (known.getD ∅).union (otherMembers members name references)) ∅

/-- The members that depend on each member that is a dependency. -/
def dependentMap (members : Members) : NameMap NameSet :=
  members.foldl (fun map (name, references) =>
    (otherMembers members name references).toList.foldl (fun map dependency =>
      map.alter dependency fun known => (known.getD ∅).insert name) map) ∅

/-- The dependencies that a member waits for. -/
def waiting (schedule : Schedule) (name : String) : List String :=
  ((schedule.pending.get? name).getD ∅).toList

/-- Whether all that a member waits for waits for that member in turn. -/
def closesCyclesOnly (schedule : Schedule) (name : String) : Bool :=
  (schedule.waiting name).all fun dependency =>
    Graph.reaches schedule.waiting schedule.pending.keys.toList dependency name

/-- Takes a declared member off what one of its dependents waits for. -/
def settle (declared : String) (schedule : Schedule) (name : String) : Schedule :=
  match schedule.pending.get? name with
  | none => schedule
  | some dependencies =>
    let left := dependencies.erase declared
    { pending := schedule.pending.insert name left
      ready := if left.isEmpty then schedule.ready.insert name else schedule.ready }

/-- Declares a member, which releases its dependents. -/
def declare (dependents : NameMap NameSet) (schedule : Schedule) (name : String) : Schedule :=
  ((dependents.get? name).getD ∅).toList.foldl (settle name)
    { schedule with pending := schedule.pending.erase name }

/-- Takes a member off those that wait for nothing. -/
def takeReady (schedule : Schedule) (name : String) : Schedule :=
  { schedule with ready := schedule.ready.erase name }

theorem keys_settle (declared : String) (schedule : Schedule) (name : String) :
    (schedule.settle declared name).pending.keys.toList = schedule.pending.keys.toList := by
  unfold settle
  split
  · rfl
  · rename_i dependencies known
    exact NameMap.keys_insert_of_contains (by simp [NameMap.contains, known])

theorem size_foldl_settle (declared : String) (users : List String) (schedule : Schedule) :
    (users.foldl (settle declared) schedule).pending.size = schedule.pending.size := by
  induction users generalizing schedule with
  | nil => rfl
  | cons user rest ih =>
    rw [List.foldl_cons, ih, ← NameMap.length_keys, keys_settle, NameMap.length_keys]

/-- To declare a member leaves fewer to be declared. -/
theorem size_declare_lt {dependents : NameMap NameSet} {schedule : Schedule} {name : String}
    (pending : schedule.pending.contains name) :
    (schedule.declare dependents name).pending.size < schedule.pending.size := by
  unfold declare
  rw [size_foldl_settle]
  exact NameMap.size_erase_lt pending

theorem mem_chosen (schedule : Schedule) (first : String) (rest : List String) :
    ((first :: rest).find? schedule.closesCyclesOnly).getD first ∈ first :: rest := by
  cases found : (first :: rest).find? schedule.closesCyclesOnly with
  | none => exact List.mem_cons_self
  | some name => exact List.mem_of_find?_eq_some found

/-- Declares all that is pending: the first member that is ready or, if there is none, one that only
its own cycles hold back. Each comes with whether it broke a tie. -/
def advance (dependents : NameMap NameSet) (schedule : Schedule) : List (String × Bool) :=
  match _hp : schedule.pending.keys.toList with
  | [] => []
  | first :: rest =>
    match _hr : schedule.ready.toList with
    | name :: _ =>
      if _h : schedule.pending.contains name then
        (name, false) :: advance dependents ((schedule.takeReady name).declare dependents name)
      else advance dependents (schedule.takeReady name)
    | [] =>
      let chosen := ((first :: rest).find? schedule.closesCyclesOnly).getD first
      (chosen, true) :: advance dependents (schedule.declare dependents chosen)
termination_by (schedule.pending.size, schedule.ready.size)
decreasing_by
  · exact Prod.Lex.left _ _ (size_declare_lt _h)
  · apply Prod.Lex.right
    exact NameSet.size_erase_lt (NameSet.mem_toList.1 (_hr ▸ List.mem_cons_self))
  · apply Prod.Lex.left
    apply size_declare_lt
    exact NameMap.mem_keys_iff.1 (NameSet.mem_toList.1 (_hp ▸ schedule.mem_chosen first rest))

/-- The declaration order of some members, found by a schedule. -/
def order (members : Members) : DeclarationOrder :=
  let dependencies := dependencyMap members
  let dependents := dependentMap members
  let free := (dependencies.entries.filter (·.2.isEmpty)).map Prod.fst
  let placed := advance dependents (free.foldl (declare dependents) ⟨dependencies, ∅⟩)
  { order := free ++ placed.map Prod.fst
    tieBreaks := (placed.filter Prod.snd).map Prod.fst }

end Schedule

end ZodModules
