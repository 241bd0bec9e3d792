import ZodModules.Registry
import Mathlib.Logic.Relation

/-!
# Reachability in a registry

What closures mean. The search for a closure ends well exactly if nothing that it meets refers to an
unregistered name, and then it has found exactly what one or more references lead to.
-/

namespace ZodModules.Registry

open Relation (TransGen ReflTransGen)

variable {registry : Registry}

/-- The schema registered under a name refers to another name. -/
def Refers (registry : Registry) (source target : String) : Prop :=
  ∃ schema, registry.get? source = some schema ∧ target ∈ schema.refs

/-- One or more references lead from a name to another. -/
abbrev Reaches (registry : Registry) : String → String → Prop := TransGen registry.Refers

/-- Every reference that a schema or anything in its reach makes is to a registered name. -/
def Resolves (registry : Registry) (name : String) : Prop :=
  ∀ source target, ReflTransGen registry.Refers name source → registry.Refers source target →
    registry.contains target

theorem mem_names_iff {name : String} : name ∈ registry.names ↔ registry.contains name :=
  NameMap.mem_keys_iff

theorem contains_of_get? {name : String} {schema : Schema} (h : registry.get? name = some schema) :
    registry.contains name := by
  show (registry.get? name).isSome
  simp [h]

theorem Resolves.contains {name target : String} (resolves : registry.Resolves name)
    (h : registry.Reaches name target) : registry.contains target := by
  obtain ⟨source, before, last⟩ := TransGen.tail'_iff.1 h
  exact resolves source target before last

theorem Resolves.of_reaches {name target : String} (resolves : registry.Resolves name)
    (h : registry.Reaches name target) : registry.Resolves target :=
  fun source next after last => resolves source next (h.to_reflTransGen.trans after) last

theorem refers_of_mem_citations {name : String} {schema : Schema}
    (registered : registry.get? name = some schema) {citation : String × String}
    (h : citation ∈ citations name schema) :
    citation.1 = name ∧ registry.Refers citation.1 citation.2 := by
  obtain ⟨target, member, rfl⟩ := List.mem_map.1 h
  exact ⟨rfl, schema, registered, member⟩

/-- A search that ends well keeps what it has found, takes up all its work, and has taken up the
references of whatever it adds. -/
theorem closed_of_search {root : String} {unvisited : List String} {found reached : NameSet}
    {work : List (String × String)}
    (covered : ∀ name, registry.contains name → name ∈ unvisited ∨ name ∈ found ∨ name = root)
    (h : registry.search root unvisited found work = .ok reached) :
    (∀ name ∈ found, name ∈ reached) ∧ (∀ citation ∈ work, citation.2 ∈ reached) ∧
      ∀ name ∈ reached, name ∈ found ∨ name = root ∨
        registry.contains name ∧ ∀ target, registry.Refers name target → target ∈ reached := by
  fun_induction search registry root unvisited found work with
  | case1 unvisited found =>
    cases h
    exact ⟨fun _ member => member, by simp, fun _ member => Or.inl member⟩
  | case2 unvisited found citing work ih =>
    obtain ⟨kept, done, closed⟩ := ih (fun name registered => by
      rcases covered name registered with unseen | seen | rfl
      · exact Or.inl unseen
      · exact Or.inr (Or.inl (NameSet.mem_insert.2 (Or.inr seen)))
      · exact Or.inr (Or.inr rfl)) h
    refine ⟨fun name member => kept name (NameSet.mem_insert.2 (Or.inr member)), ?_, ?_⟩
    · intro citation member
      rcases List.mem_cons.1 member with rfl | member
      · exact kept _ (NameSet.mem_insert.2 (Or.inl rfl))
      · exact done citation member
    · intro name member
      rcases closed name member with seen | same | ready
      · rcases NameSet.mem_insert.1 seen with rfl | seen
        · exact Or.inr (Or.inl rfl)
        · exact Or.inl seen
      · exact Or.inr (Or.inl same)
      · exact Or.inr (Or.inr ready)
  | case3 unvisited found citing target work other seen ih =>
    obtain ⟨kept, done, closed⟩ := ih covered h
    refine ⟨kept, ?_, closed⟩
    intro citation member
    rcases List.mem_cons.1 member with rfl | member
    · exact kept _ (of_decide_eq_true seen)
    · exact done citation member
  | case4 => cases h
  | case5 unvisited found citing target work other unseen schema registered fresh ih =>
    obtain ⟨kept, done, closed⟩ := ih (fun name known => by
      by_cases same : name = target
      · exact Or.inr (Or.inl (NameSet.mem_insert.2 (Or.inl same)))
      · rcases covered name known with waiting | seen | rfl
        · exact Or.inl ((List.mem_erase_of_ne same).2 waiting)
        · exact Or.inr (Or.inl (NameSet.mem_insert.2 (Or.inr seen)))
        · exact Or.inr (Or.inr rfl)) h
    refine ⟨fun name member => kept name (NameSet.mem_insert.2 (Or.inr member)), ?_, ?_⟩
    · intro citation member
      rcases List.mem_cons.1 member with rfl | member
      · exact kept _ (NameSet.mem_insert.2 (Or.inl rfl))
      · exact done citation (List.mem_append_right _ member)
    · intro name member
      rcases closed name member with seen | same | ready
      · rcases NameSet.mem_insert.1 seen with rfl | seen
        · refine Or.inr (Or.inr ⟨contains_of_get? registered, ?_⟩)
          rintro next ⟨same, found, cites⟩
          rw [registered] at found
          cases found
          exact done (name, next) (List.mem_append_left _ (List.mem_map.2 ⟨next, cites, rfl⟩))
        · exact Or.inl seen
      · exact Or.inr (Or.inl same)
      · exact Or.inr (Or.inr ready)
  | case6 unvisited found citing target work other unseen schema registered stale ih =>
    -- A registered name that is neither found nor the root is still unvisited.
    rcases covered target (contains_of_get? registered) with waiting | seen | same
    · exact absurd waiting stale
    · exact absurd (decide_eq_true seen) unseen
    · exact absurd same other

/-- A search finds only what its work leads to. -/
theorem reaches_of_search {root : String} {unvisited : List String} {found reached : NameSet}
    {work : List (String × String)} (sound : ∀ name ∈ found, registry.Reaches root name)
    (ahead : ∀ citation ∈ work, registry.Reaches root citation.2)
    (h : registry.search root unvisited found work = .ok reached) :
    ∀ name ∈ reached, registry.Reaches root name := by
  fun_induction search registry root unvisited found work with
  | case1 =>
    cases h
    exact sound
  | case2 unvisited found citing work ih =>
    apply ih _ (fun citation member => ahead citation (List.mem_cons_of_mem _ member)) h
    intro name member
    rcases NameSet.mem_insert.1 member with rfl | member
    · exact ahead _ List.mem_cons_self
    · exact sound name member
  | case3 unvisited found citing target work other seen ih =>
    exact ih sound (fun citation member => ahead citation (List.mem_cons_of_mem _ member)) h
  | case4 => cases h
  | case5 unvisited found citing target work other unseen schema registered fresh ih =>
    have arrived : registry.Reaches root target := ahead _ List.mem_cons_self
    apply ih _ _ h
    · intro name member
      rcases NameSet.mem_insert.1 member with rfl | member
      · exact arrived
      · exact sound name member
    · intro citation member
      rcases List.mem_append.1 member with next | later
      · obtain ⟨same, cites⟩ := refers_of_mem_citations registered next
        exact arrived.tail (same ▸ cites)
      · exact ahead citation (List.mem_cons_of_mem _ later)
  | case6 unvisited found citing target work other unseen schema registered stale ih =>
    exact ih sound (fun citation member => ahead citation (List.mem_cons_of_mem _ member)) h

/-- A search fails at a reference within reach that is to an unregistered name. -/
theorem refers_of_search_error {root : String} {unvisited : List String} {found : NameSet}
    {work : List (String × String)} {e : ResolutionError}
    (ahead : ∀ citation ∈ work, ReflTransGen registry.Refers root citation.1 ∧
      registry.Refers citation.1 citation.2)
    (h : registry.search root unvisited found work = .error e) :
    ReflTransGen registry.Refers root e.schema ∧ registry.Refers e.schema e.reference ∧
      ¬ registry.contains e.reference := by
  fun_induction search registry root unvisited found work with
  | case1 => cases h
  | case2 unvisited found citing work ih =>
    exact ih (fun citation member => ahead citation (List.mem_cons_of_mem _ member)) h
  | case3 unvisited found citing target work other seen ih =>
    exact ih (fun citation member => ahead citation (List.mem_cons_of_mem _ member)) h
  | case4 unvisited found citing target work other unseen missing =>
    cases h
    obtain ⟨before, cites⟩ := ahead _ List.mem_cons_self
    refine ⟨before, cites, ?_⟩
    show ¬ (registry.get? target).isSome
    simp [missing]
  | case5 unvisited found citing target work other unseen schema registered fresh ih =>
    apply ih _ h
    intro citation member
    rcases List.mem_append.1 member with next | later
    · obtain ⟨before, cites⟩ := ahead _ List.mem_cons_self
      obtain ⟨same, further⟩ := refers_of_mem_citations registered next
      exact ⟨same ▸ before.tail cites, further⟩
    · exact ahead citation (List.mem_cons_of_mem _ later)
  | case6 unvisited found citing target work other unseen schema registered stale ih =>
    exact ih (fun citation member => ahead citation (List.mem_cons_of_mem _ member)) h

/-- A closure that is found is what the search ends with that starts at a registered schema. -/
theorem exists_search_of_closure {name : String} {reached : NameSet}
    (h : registry.closure name = .ok reached) :
    ∃ schema, registry.get? name = some schema ∧
      registry.search name registry.names.toList ∅ (citations name schema) = .ok reached := by
  unfold closure at h
  cases registered : registry.get? name with
  | none => simp [registered] at h
  | some schema =>
    rw [registered] at h
    exact ⟨schema, rfl, h⟩

/-- The closure of a schema holds exactly what it reaches. -/
theorem mem_closure_iff {name target : String} {reached : NameSet}
    (h : registry.closure name = .ok reached) : target ∈ reached ↔ registry.Reaches name target := by
  obtain ⟨schema, registered, search⟩ := exists_search_of_closure h
  have cites {next : String} (direct : registry.Refers name next) :
      (name, next) ∈ citations name schema := by
    obtain ⟨same, found, member⟩ := direct
    rw [registered] at found
    cases found
    exact List.mem_map.2 ⟨next, member, rfl⟩
  obtain ⟨-, done, closed⟩ := closed_of_search
    (fun name known => Or.inl (mem_names_iff.2 known)) search
  constructor
  · apply reaches_of_search (by simp) _ search
    intro citation member
    obtain ⟨same, direct⟩ := refers_of_mem_citations registered member
    exact .single (same ▸ direct)
  · intro reaches
    induction reaches with
    | single direct => exact done _ (cites direct)
    | tail _ direct ih =>
      rcases closed _ ih with impossible | rfl | ready
      · exact absurd impossible (NameSet.not_mem_empty _)
      · exact done _ (cites direct)
      · exact ready.2 _ direct

theorem closure_of_refs_eq_nil {name : String} {schema : Schema}
    (registered : registry.get? name = some schema) (leaf : schema.refs = []) :
    registry.closure name = .ok ∅ := by
  rw [closure, registered]
  show registry.search name _ ∅ (citations name schema) = _
  rw [citations, leaf, List.map_nil, search]

/-- A schema that the search meets for the first time is found and its references are taken up. -/
theorem search_of_fresh {root citing target : String} {unvisited : List String} {found : NameSet}
    {work : List (String × String)} {schema : Schema} (other : target ≠ root)
    (fresh : found.contains target = false) (registered : registry.get? target = some schema)
    (unseen : target ∈ unvisited) :
    registry.search root unvisited found ((citing, target) :: work) =
      registry.search root (unvisited.erase target) (found.insert target)
        (citations target schema ++ work) := by
  rw [search, if_neg other, if_neg (by simp [fresh])]
  simp only [registered]
  rw [dif_pos unseen]

theorem resolves_of_closure {name : String} {reached : NameSet}
    (h : registry.closure name = .ok reached) : registry.contains name ∧ registry.Resolves name := by
  have members (target : String) : target ∈ reached ↔ registry.Reaches name target :=
    mem_closure_iff h
  obtain ⟨schema, registered, search⟩ := exists_search_of_closure h
  obtain ⟨-, -, closed⟩ := closed_of_search
    (fun name known => Or.inl (mem_names_iff.2 known)) search
  refine ⟨contains_of_get? registered, ?_⟩
  intro source target before direct
  have arrived : target ∈ reached := (members target).2 (TransGen.tail' before direct)
  rcases closed target arrived with impossible | rfl | ready
  · exact absurd impossible (NameSet.not_mem_empty _)
  · exact contains_of_get? registered
  · exact ready.1

/-- Where the search for the closure of a registered schema fails. -/
theorem refers_of_closure_error {name : String} {e : ResolutionError}
    (registered : registry.contains name) (h : registry.closure name = .error e) :
    ReflTransGen registry.Refers name e.schema ∧ registry.Refers e.schema e.reference ∧
      ¬ registry.contains e.reference := by
  obtain ⟨schema, found⟩ := Option.isSome_iff_exists.1 registered
  have found : registry.get? name = some schema := found
  rw [closure, found] at h
  apply refers_of_search_error _ h
  intro citation member
  obtain ⟨same, direct⟩ := refers_of_mem_citations found member
  exact ⟨same ▸ .refl, direct⟩

/-- A schema has a closure exactly if it is registered and resolves. -/
theorem closure_isOk_iff {name : String} :
    (∃ reached, registry.closure name = .ok reached) ↔
      registry.contains name ∧ registry.Resolves name := by
  constructor
  · rintro ⟨reached, h⟩
    exact resolves_of_closure h
  · rintro ⟨registered, resolves⟩
    cases h : registry.closure name with
    | ok reached => exact ⟨reached, rfl⟩
    | error e =>
      obtain ⟨before, direct, missing⟩ := refers_of_closure_error registered h
      exact absurd (resolves _ _ before direct) missing

/-- A name belongs to a closure. -/
theorem exists_closure_iff {name target : String} :
    (∃ reached, registry.closure name = .ok reached ∧ target ∈ reached) ↔
      (registry.contains name ∧ registry.Resolves name) ∧ registry.Reaches name target := by
  constructor
  · rintro ⟨reached, ok, member⟩
    exact ⟨resolves_of_closure ok, (mem_closure_iff ok).1 member⟩
  · rintro ⟨resolves, reaches⟩
    obtain ⟨reached, ok⟩ := closure_isOk_iff.2 resolves
    exact ⟨reached, ok, (mem_closure_iff ok).2 reaches⟩

end ZodModules.Registry

namespace ZodModules.ClosureIndex

variable {registry : Registry}

theorem get?_ofRegistry (name : String) :
    (ofRegistry registry).closures.get? name =
      if registry.contains name then some (registry.closure name) else none := by
  have entry := NameMap.get?_mapEntries (fun name _ => registry.closure name) registry.schemas name
  show (registry.schemas.mapEntries fun name _ => registry.closure name).get? name = _
  rw [entry]
  show _ = if (registry.schemas.get? name).isSome then _ else _
  cases registry.schemas.get? name <;> simp

theorem closure?_eq_some_iff {name : String} {reached : NameSet} :
    (ofRegistry registry).closure? name = some reached ↔ registry.closure name = .ok reached := by
  unfold closure?
  rw [get?_ofRegistry]
  by_cases registered : registry.contains name
  · rw [if_pos registered]
    cases registry.closure name <;> simp
  · rw [if_neg registered]
    simp only [reduceCtorEq, false_iff]
    exact fun h => registered (Registry.resolves_of_closure h).1

/-- The index knows a schema to reach itself exactly if its closure does. -/
theorem isRecursive_ofRegistry_iff {name : String} {reached : NameSet}
    (closure : registry.closure name = .ok reached) :
    (ofRegistry registry).isRecursive name ↔ name ∈ reached := by
  have found := closure?_eq_some_iff.2 closure
  simp [isRecursive, reaches, found, NameSet.contains]

theorem reaches_ofRegistry {source target : String} :
    (ofRegistry registry).reaches source target ↔
      (registry.contains source ∧ registry.Resolves source) ∧ registry.Reaches source target := by
  unfold reaches
  rw [Option.any_eq_true, ← Registry.exists_closure_iff]
  refine exists_congr fun reached => and_congr closure?_eq_some_iff ?_
  exact decide_eq_true_iff

end ZodModules.ClosureIndex
