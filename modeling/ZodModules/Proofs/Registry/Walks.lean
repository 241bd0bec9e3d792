import ZodModules.Proofs.Registry.Soundness

/-!
# Depth-first walks

The references in the order in which a depth-first walk from a name takes them up, past those that
lead nowhere. The walk takes up every reference that a schema in reach makes, and the search for the
closure of the name fails at the first of them that leads nowhere.
-/

namespace ZodModules.Registry

open Relation (ReflTransGen)

variable {registry : Registry}

/-- The references of the schema registered under a name. -/
def citationsOf (registry : Registry) (name : String) : List (String × String) :=
  match registry.get? name with
  | some schema => citations name schema
  | none => []

/-- Takes up the references of `work` in turn. Those of a schema of `unentered` come right after the
first reference to it; a schema is entered once. -/
def trail (registry : Registry) :
    (unentered : List String) → (work : List (String × String)) → List (String × String)
  | _, [] => []
  | unentered, (citing, target) :: work =>
    if _h : target ∈ unentered then
      (citing, target) ::
        trail registry (unentered.erase target) (registry.citationsOf target ++ work)
    else (citing, target) :: trail registry unentered work
termination_by unentered work => (unentered.length, work.length)
decreasing_by
  · apply Prod.Lex.left
    have := List.length_erase_of_mem _h
    have := List.length_pos_of_mem _h
    omega
  · exact Prod.Lex.right _ (by simp)

/-- The references that a depth-first walk from a name takes up, each with the schema that makes
it. -/
def walk (registry : Registry) (name : String) : List (String × String) :=
  registry.trail (registry.names.erase name).toList (registry.citationsOf name)

/-- The first reference on the walk from a name that leads nowhere. -/
def firstDangling? (registry : Registry) (name : String) : Option (String × String) :=
  (registry.walk name).find? fun citation => !registry.contains citation.2

theorem mem_citationsOf_iff {name : String} {citation : String × String} :
    citation ∈ registry.citationsOf name ↔
      citation.1 = name ∧ registry.Cites citation.1 citation.2 := by
  obtain ⟨source, target⟩ := citation
  unfold citationsOf Cites
  cases found : registry.get? name with
  | none =>
    simp only [List.not_mem_nil, false_iff]
    rintro ⟨rfl, schema, found', -⟩
    rw [found] at found'
    cases found'
  | some schema =>
    constructor
    · intro member
      obtain ⟨same, refers⟩ := refers_of_mem_citations found member
      rw [refers_eq_cites] at refers
      exact ⟨same, refers⟩
    · rintro ⟨rfl, schema', found', cites⟩
      obtain rfl : schema = schema' := Option.some.inj (found.symm.trans found')
      exact List.mem_map.2 ⟨target, cites.mem_refs, rfl⟩

/-- What holds of the work, and of the references of every schema that a reference with it leads to,
holds of all that is taken up. -/
theorem forall_mem_trail {P : String × String → Prop} {unentered : List String}
    {work : List (String × String)} (ahead : ∀ citation ∈ work, P citation)
    (further : ∀ citation, P citation → ∀ next ∈ registry.citationsOf citation.2, P next) :
    ∀ citation ∈ registry.trail unentered work, P citation := by
  fun_induction trail registry unentered work with
  | case1 => exact ahead
  | case2 unentered citing target work entered ih =>
    have first := ahead _ List.mem_cons_self
    refine List.forall_mem_cons.2 ⟨first, ih (List.forall_mem_append.2 ⟨further _ first, ?_⟩)⟩
    exact fun citation later => ahead citation (List.mem_cons_of_mem _ later)
  | case3 unentered citing target work passed ih =>
    refine List.forall_mem_cons.2 ⟨ahead _ List.mem_cons_self, ih ?_⟩
    exact fun citation later => ahead citation (List.mem_cons_of_mem _ later)

/-- All work is taken up, and so are the references of every schema that is entered. -/
theorem closed_trail (registry : Registry) (unentered : List String)
    (work : List (String × String)) :
    (∀ citation ∈ work, citation ∈ registry.trail unentered work) ∧
      ∀ citation ∈ registry.trail unentered work, citation.2 ∈ unentered →
        ∀ next ∈ registry.citationsOf citation.2, next ∈ registry.trail unentered work := by
  fun_induction trail registry unentered work with
  | case1 => exact ⟨fun _ member => member, fun _ member => nomatch member⟩
  | case2 unentered citing target work entered ih =>
    obtain ⟨done, closed⟩ := ih
    obtain ⟨own, rest⟩ := List.forall_mem_append.1 done
    refine ⟨?_, ?_⟩
    · intro citation member
      rcases List.mem_cons.1 member with rfl | later
      · exact List.mem_cons_self
      · exact List.mem_cons_of_mem _ (rest citation later)
    · intro citation member waiting next cited
      apply List.mem_cons_of_mem
      by_cases same : citation.2 = target
      · exact own next (same ▸ cited)
      · rcases List.mem_cons.1 member with rfl | later
        · exact absurd rfl same
        · exact closed citation later ((List.mem_erase_of_ne same).2 waiting) next cited
  | case3 unentered citing target work passed ih =>
    obtain ⟨done, closed⟩ := ih
    refine ⟨?_, ?_⟩
    · intro citation member
      rcases List.mem_cons.1 member with rfl | later
      · exact List.mem_cons_self
      · exact List.mem_cons_of_mem _ (done citation later)
    · intro citation member waiting next cited
      apply List.mem_cons_of_mem
      rcases List.mem_cons.1 member with rfl | later
      · exact absurd waiting passed
      · exact closed citation later waiting next cited

/-- The walk from a name takes up exactly the references made by the schemas that the name leads to,
itself included. -/
theorem mem_walk_iff {name : String} {citation : String × String} :
    citation ∈ registry.walk name ↔
      ReflTransGen registry.Cites name citation.1 ∧ registry.Cites citation.1 citation.2 := by
  constructor
  · apply forall_mem_trail
      (P := fun citation => ReflTransGen registry.Cites name citation.1 ∧
        registry.Cites citation.1 citation.2)
    · intro citation member
      obtain ⟨same, cites⟩ := mem_citationsOf_iff.1 member
      exact ⟨same ▸ .refl, cites⟩
    · rintro citation ⟨leads, cites⟩ next member
      obtain ⟨same, further⟩ := mem_citationsOf_iff.1 member
      exact ⟨same ▸ leads.tail cites, further⟩
  · obtain ⟨source, target⟩ := citation
    rintro ⟨leads, cites⟩
    change ReflTransGen registry.Cites name source at leads
    obtain ⟨done, closed⟩ := closed_trail registry (registry.names.erase name).toList
      (registry.citationsOf name)
    induction leads generalizing target with
    | refl => exact done _ (mem_citationsOf_iff.2 ⟨rfl, cites⟩)
    | @tail before source leads last ih =>
      -- The walk has taken up a reference to the schema, so it has entered it or started there.
      by_cases start : source = name
      · exact done _ (mem_citationsOf_iff.2 ⟨start, cites⟩)
      · obtain ⟨schema, found, cited⟩ := cites
        have entered : source ∈ registry.names.erase name :=
          NameSet.mem_erase.2 ⟨mem_names_iff.2 (contains_of_get? found), start⟩
        exact closed _ (ih source last) entered _
          (mem_citationsOf_iff.2 ⟨rfl, schema, found, cited⟩)

/-- A search has entered what it has found and the name that it started from. -/
structure Entered (registry : Registry) (root : String) (unvisited : List String) (found : NameSet)
    (unentered : List String) : Prop where
  nodup : unentered.Nodup
  mem_iff : ∀ name, name ∈ unentered ↔
    registry.contains name ∧ name ≠ root ∧ name ∉ found
  unvisited : ∀ name ∈ unentered, name ∈ unvisited
  registered : ∀ name, name = root ∨ name ∈ found → registry.contains name

namespace Entered

variable {root target : String} {unvisited unentered : List String} {found : NameSet}

theorem insert_root (entered : registry.Entered root unvisited found unentered) :
    registry.Entered root unvisited (found.insert root) unentered where
  nodup := entered.nodup
  mem_iff name := by
    rw [entered.mem_iff, NameSet.mem_insert]
    grind
  unvisited := entered.unvisited
  registered name met := by
    rcases met with same | met
    · exact entered.registered name (Or.inl same)
    · exact entered.registered name (NameSet.mem_insert.1 met)

theorem insert (entered : registry.Entered root unvisited found unentered)
    (registered : registry.contains target) :
    registry.Entered root (unvisited.erase target) (found.insert target)
      (unentered.erase target) where
  nodup := entered.nodup.erase target
  mem_iff name := by
    rw [entered.nodup.mem_erase_iff, entered.mem_iff, NameSet.mem_insert]
    grind
  unvisited name member := by
    obtain ⟨other, waiting⟩ := entered.nodup.mem_erase_iff.1 member
    exact (List.mem_erase_of_ne other).2 (entered.unvisited name waiting)
  registered name met := by
    rcases met with same | met
    · exact entered.registered name (Or.inl same)
    · rcases NameSet.mem_insert.1 met with rfl | met
      · exact registered
      · exact entered.registered name (Or.inr met)

end Entered

/-- A reference to a registered schema that has been entered before has no part in what a trail
meets first. -/
theorem find?_trail_of_entered {citing target : String} {unentered : List String}
    {work : List (String × String)} (registered : registry.contains target)
    (entered : target ∉ unentered) :
    (registry.trail unentered ((citing, target) :: work)).find?
        (fun citation => !registry.contains citation.2) =
      (registry.trail unentered work).find? fun citation => !registry.contains citation.2 := by
  rw [trail, dif_neg entered, List.find?_cons_of_neg (by simp [registered])]

/-- A search fails with the first reference on its trail that leads nowhere. -/
theorem search_eq_error_iff {root : String} {unvisited unentered : List String} {found : NameSet}
    {work : List (String × String)} {e : ResolutionError}
    (entered : registry.Entered root unvisited found unentered) :
    registry.search root unvisited found work = .error e ↔
      ((registry.trail unentered work).find? fun citation => !registry.contains citation.2) =
        some (e.schema, e.reference) := by
  fun_induction search registry root unvisited found work generalizing unentered with
  | case1 => simp [trail]
  | case2 unvisited found citing work ih =>
    have met : root ∉ unentered := fun waiting => ((entered.mem_iff root).1 waiting).2.1 rfl
    rw [find?_trail_of_entered (entered.registered root (Or.inl rfl)) met]
    exact ih entered.insert_root
  | case3 unvisited found citing target work other seen ih =>
    have seen : target ∈ found := of_decide_eq_true seen
    have met : target ∉ unentered := fun waiting => ((entered.mem_iff target).1 waiting).2.2 seen
    rw [find?_trail_of_entered (entered.registered target (Or.inr seen)) met]
    exact ih entered
  | case4 unvisited found citing target work other unseen missing =>
    have missing : registry.contains target = false := by
      show (registry.get? target).isSome = false
      rw [missing]
      rfl
    have met : target ∉ unentered := fun waiting => by
      have registered := ((entered.mem_iff target).1 waiting).1
      rw [missing] at registered
      cases registered
    rw [trail, dif_neg met, List.find?_cons_of_pos (by simp [missing])]
    obtain ⟨schema, reference⟩ := e
    simp
  | case5 unvisited found citing target work other unseen schema found? fresh ih =>
    have registered := contains_of_get? found?
    have unseen : target ∉ found := fun seen => unseen (decide_eq_true seen)
    have waiting : target ∈ unentered := (entered.mem_iff target).2 ⟨registered, other, unseen⟩
    have own : registry.citationsOf target = citations target schema := by
      rw [citationsOf, found?]
    rw [trail, dif_pos waiting, List.find?_cons_of_neg (by simp [registered]), own]
    exact ih (entered.insert registered)
  | case6 unvisited found citing target work other unseen schema found? stale ih =>
    -- A registered name that is neither found nor the root is still unvisited.
    have unseen : target ∉ found := fun seen => unseen (decide_eq_true seen)
    have waiting : target ∈ unentered :=
      (entered.mem_iff target).2 ⟨contains_of_get? found?, other, unseen⟩
    exact absurd (entered.unvisited target waiting) stale

/-- The search for the closure of a registered schema fails with the first reference on the walk
from there that leads nowhere. -/
theorem closure_eq_error_iff {name : String} {e : ResolutionError}
    (registered : registry.contains name) :
    registry.closure name = .error e ↔
      registry.firstDangling? name = some (e.schema, e.reference) := by
  obtain ⟨schema, found⟩ := Option.isSome_iff_exists.1 registered
  have found : registry.get? name = some schema := found
  have own : registry.citationsOf name = citations name schema := by
    rw [citationsOf, found]
  have entered : registry.Entered name registry.names.toList ∅
      (registry.names.erase name).toList := by
    refine ⟨(registry.names.erase name).sorted.imp String.ne_of_lt, ?_, ?_, ?_⟩
    · intro other
      rw [NameSet.mem_toList, NameSet.mem_erase, mem_names_iff]
      simp
    · intro other waiting
      exact (NameSet.mem_erase.1 waiting).1
    · rintro other (rfl | impossible)
      · exact registered
      · exact absurd impossible (NameSet.not_mem_empty _)
  rw [closure, found, firstDangling?, walk, own]
  exact search_eq_error_iff entered

theorem Dangles.contains {source target : String} (dangles : registry.Dangles source target) :
    registry.contains source := by
  obtain ⟨⟨schema, found, -⟩, -⟩ := dangles
  exact contains_of_get? found

/-- The first reference on a walk that leads nowhere is one that the name leads to. -/
theorem dangles_of_firstDangling? {name source target : String}
    (first : registry.firstDangling? name = some (source, target)) :
    ReflTransGen registry.Cites name source ∧ registry.Dangles source target := by
  obtain ⟨leads, cites⟩ := mem_walk_iff.1 (List.mem_of_find?_eq_some first)
  have missing := List.find?_some first
  exact ⟨leads, cites, by simpa using missing⟩

/-- A walk meets a reference that leads nowhere exactly if the name leads to one. -/
theorem exists_firstDangling?_iff {name : String} :
    (∃ citation, registry.firstDangling? name = some citation) ↔ registry.Fails name := by
  constructor
  · rintro ⟨⟨source, target⟩, first⟩
    exact ⟨source, target, dangles_of_firstDangling? first⟩
  · rintro ⟨source, target, leads, cites, missing⟩
    apply Option.isSome_iff_exists.1
    rw [firstDangling?, List.find?_isSome]
    exact ⟨(source, target), mem_walk_iff.2 ⟨leads, cites⟩, by simpa using missing⟩

end ZodModules.Registry
