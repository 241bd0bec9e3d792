import ZodModules.Data.NameSet
import ZodModules.Order.Explore

/-!
# Declaration order

The order in which the members of one module are declared. Each member stands after the members
that it depends on, except where a cycle of dependencies leaves no member without one; then the
member that is declared next is recorded as a tie-break.
-/

namespace ZodModules

/-- An order of names, and which of them were placed before one of their dependencies. -/
structure DeclarationOrder where
  order : List String
  tieBreaks : List String
deriving DecidableEq

namespace DeclarationOrder

/-- Members with the names that each refers to. A name may occur more than once. -/
abbrev Members := List (String × List String)

/-- The names of the members. -/
def names (members : Members) : NameSet := NameSet.ofList (members.map Prod.fst)

/-- The other members that a member refers to, under any of its occurrences. -/
def dependencies (members : Members) (name : String) : NameSet :=
  let references := (members.filter (·.1 == name)).flatMap Prod.snd
  NameSet.ofList (references.filter fun r => r != name && (names members).contains r)

/-- The dependencies of a member that are still to be declared. -/
def openDependencies (dependsOn : String → NameSet) (remaining : List String) (name : String) : List String :=
  (dependsOn name).toList.filter remaining.contains

/-- Whether every open dependency of a member leads back to it, so that only cycles through it
keep it from being declared. -/
def closesCyclesOnly (dependsOn : String → NameSet) (remaining : List String) (name : String) :
    Bool :=
  (openDependencies dependsOn remaining name).all fun dependency =>
    Graph.reaches (openDependencies dependsOn remaining) remaining dependency name

/-- The member to declare next and whether it breaks a tie: the first one without open dependencies,
else the first one that only its own cycles hold back. -/
def next (dependsOn : String → NameSet) (first : String) (rest : List String) : String × Bool :=
  let remaining := first :: rest
  match remaining.find? fun name => (openDependencies dependsOn remaining name).isEmpty with
  | some name => (name, false)
  | none =>
    match remaining.find? (closesCyclesOnly dependsOn remaining) with
    | some name => (name, true)
    | none => (first, true)

theorem next_mem (dependsOn : String → NameSet) (first : String) (rest : List String) :
    (next dependsOn first rest).1 ∈ first :: rest := by
  simp only [next]
  split
  · exact List.mem_of_find?_eq_some ‹_›
  · split
    · exact List.mem_of_find?_eq_some ‹_›
    · exact List.mem_cons_self

/-- The remaining members in the order of their declaration, each with whether it broke a tie. -/
def place (dependsOn : String → NameSet) : List String → List (String × Bool)
  | [] => []
  | first :: rest =>
    let chosen := next dependsOn first rest
    chosen :: place dependsOn ((first :: rest).erase chosen.1)
termination_by remaining => remaining.length
decreasing_by
  have hmem := next_mem dependsOn first rest
  have := List.length_erase_of_mem hmem
  simp only [List.length_cons] at this ⊢
  omega

/-- The declaration order of some members. Those without dependencies come first, by name. -/
def ofMembers (members : Members) : DeclarationOrder :=
  let dependsOn := dependencies members
  let isFree (name : String) : Bool := (dependsOn name).isEmpty
  let all := (names members).toList
  let placed := place dependsOn (all.filter fun name => !isFree name)
  { order := all.filter isFree ++ placed.map Prod.fst
    tieBreaks := (placed.filter Prod.snd).map Prod.fst }

/-- Where a name stands in the order. -/
def position? (order : DeclarationOrder) (name : String) : Option Nat := order.order.idxOf? name

/-- Whether a cycle kept a member from standing after all its dependencies. -/
def hasCycles (order : DeclarationOrder) : Bool := !order.tieBreaks.isEmpty

/-- The items whose name was taken already or is not among `names`, in their order. -/
def unplaced {α : Type} (name : α → String) (names : List String) : List α → List α
  | [] => []
  | item :: rest =>
    if names.contains (name item) then unplaced name (names.erase (name item)) rest
    else item :: unplaced name names rest

/-- Rearranges named items: the first item of each name in the order, then all others as they
were. -/
def arrange {α : Type} (order : DeclarationOrder) (name : α → String) (items : List α) : List α :=
  let names := order.order.eraseDups
  names.filterMap (fun n => items.find? (name · == n)) ++ unplaced name names items

end DeclarationOrder

end ZodModules
