import ZodModules.Model.Imports

/-!
# What a module imports

An import map holds a symbol from a source exactly if it was asked for, and the imports of a module
hold those of each of its models.
-/

namespace ZodModules

namespace ImportMap

variable {imports other : ImportMap} {source symbol from_ wanted : String}

theorem sources_insert :
    (imports.insert source symbol).sources =
      if source ∈ imports.sources then imports.sources else imports.sources ++ [source] := by
  unfold insert sources
  induction imports.entries with
  | nil => simp [insertEntry]
  | cons entry rest ih =>
    rw [insertEntry]
    by_cases here : entry.1 = source
    · simp [here]
    · rw [if_neg here, List.map_cons, ih]
      by_cases known : source ∈ rest.map Prod.fst <;> simp [known, Ne.symm here]

theorem symbols_insert :
    (imports.insert source symbol).symbols from_ =
      if from_ = source then
        if symbol ∈ imports.symbols source then imports.symbols source
        else imports.symbols source ++ [symbol]
      else imports.symbols from_ := by
  unfold insert symbols
  induction imports.entries with
  | nil =>
    rw [insertEntry, List.lookup_cons]
    by_cases same : from_ = source
    · simp [same]
    · have different : (from_ == source) = false := by simpa using same
      simp [different, same]
  | cons entry rest ih =>
    obtain ⟨key, listed⟩ := entry
    rw [insertEntry]
    by_cases here : key = source
    · subst here
      rw [if_pos rfl, List.lookup_cons, List.lookup_cons]
      by_cases same : from_ = key
      · subst same
        by_cases known : symbol ∈ listed <;> simp [known]
      · have different : (from_ == key) = false := by simpa using same
        rw [different, if_neg same, List.lookup_cons, different]
    · have elsewhere : (source == key) = false := by simpa using Ne.symm here
      rw [if_neg here, List.lookup_cons, List.lookup_cons, List.lookup_cons, elsewhere]
      by_cases same : from_ = key
      · subst same
        simp [here]
      · have different : (from_ == key) = false := by simpa using same
        rw [different]
        exact ih

theorem contains_insert :
    (imports.insert source symbol).contains from_ wanted ↔
      from_ = source ∧ wanted = symbol ∨ imports.contains from_ wanted := by
  unfold contains
  rw [List.contains_iff_mem, List.contains_iff_mem, symbols_insert]
  by_cases same : from_ = source
  · subst same
    by_cases known : symbol ∈ imports.symbols from_
    · have inside : wanted = symbol → wanted ∈ imports.symbols from_ := fun equal => equal ▸ known
      simpa [known] using inside
    · simp [known, or_comm]
  · simp [same]

theorem contains_insertAll {pairs : List (String × String)} :
    (imports.insertAll pairs).contains source symbol ↔
      (source, symbol) ∈ pairs ∨ imports.contains source symbol := by
  unfold insertAll
  induction pairs generalizing imports with
  | nil => simp
  | cons pair rest ih =>
    rw [List.foldl_cons, ih, contains_insert, List.mem_cons, Prod.ext_iff]
    exact or_left_comm.trans or_assoc.symm

theorem mem_pairs_of_contains (h : imports.contains source symbol) :
    (source, symbol) ∈ imports.pairs := by
  unfold contains symbols at h
  rw [List.contains_iff_mem] at h
  cases found : imports.entries.lookup source with
  | none =>
    rw [found] at h
    simp at h
  | some listed =>
    rw [found, Option.getD_some] at h
    obtain ⟨before, after, split, -⟩ := List.lookup_eq_some_iff.1 found
    refine List.mem_flatMap.2 ⟨(source, listed), ?_, List.mem_map.2 ⟨symbol, h, rfl⟩⟩
    rw [split]
    simp

theorem contains_merge (h : imports.contains source symbol ∨ other.contains source symbol) :
    (imports.merge other).contains source symbol := by
  refine contains_insertAll.2 ?_
  rcases h with first | second
  · exact Or.inr first
  · exact Or.inl (mem_pairs_of_contains second)

theorem mem_sources_insert :
    from_ ∈ (imports.insert source symbol).sources ↔ from_ = source ∨ from_ ∈ imports.sources := by
  rw [sources_insert]
  by_cases known : source ∈ imports.sources
  · have inside : from_ = source → from_ ∈ imports.sources := fun same => same ▸ known
    simpa [known] using inside
  · simp [known, or_comm]

theorem mem_sources_insertAll {pairs : List (String × String)} :
    from_ ∈ (imports.insertAll pairs).sources ↔
      (∃ symbol, (from_, symbol) ∈ pairs) ∨ from_ ∈ imports.sources := by
  unfold insertAll
  induction pairs generalizing imports with
  | nil => simp
  | cons pair rest ih =>
    have here : (∃ symbol, (from_, symbol) = pair) ↔ from_ = pair.1 := by
      constructor
      · rintro ⟨symbol, rfl⟩
        rfl
      · rintro rfl
        exact ⟨pair.2, rfl⟩
    rw [List.foldl_cons, ih, mem_sources_insert]
    simp only [List.mem_cons, exists_or, here]
    exact or_left_comm.trans or_assoc.symm

theorem mem_sources_merge (h : from_ ∈ (imports.merge other).sources) :
    from_ ∈ imports.sources ∨ from_ ∈ other.sources := by
  rcases mem_sources_insertAll.1 h with ⟨symbol, paired⟩ | kept
  · obtain ⟨entry, listed, inside⟩ := List.mem_flatMap.1 paired
    obtain ⟨_, -, same⟩ := List.mem_map.1 inside
    obtain ⟨rfl, -⟩ := Prod.mk.inj same
    exact Or.inr (List.mem_map_of_mem listed)
  · exact Or.inl kept

theorem mem_sources_of_contains (h : imports.contains source symbol) :
    source ∈ imports.sources := by
  obtain ⟨entry, listed, inside⟩ := List.mem_flatMap.1 (mem_pairs_of_contains h)
  obtain ⟨_, -, same⟩ := List.mem_map.1 inside
  obtain ⟨rfl, -⟩ := Prod.mk.inj same
  exact List.mem_map_of_mem listed

end ImportMap

namespace Model

variable {entity : String} {owners : NameMap String} {config : Config}

/-- What a model asks for, its module imports. -/
theorem contains_moduleImports {models : List Model} {model : Model} (member : model ∈ models)
    {source symbol : String} (asked : (source, symbol) ∈ model.importPairs entity owners config) :
    (moduleImports models entity owners config).contains source symbol := by
  have own : (model.imports entity owners config).contains source symbol :=
    ImportMap.contains_insertAll.2 (Or.inl asked)
  have kept (more : List Model) (imports : ImportMap) (h : imports.contains source symbol) :
      (more.foldl (fun imports model => imports.merge (model.imports entity owners config))
        imports).contains source symbol := by
    induction more generalizing imports with
    | nil => exact h
    | cons first rest ih => exact ih _ (ImportMap.contains_merge (Or.inl h))
  unfold moduleImports
  generalize (∅ : ImportMap).insert libraryImport.1 libraryImport.2 = start
  induction models generalizing start with
  | nil => simp at member
  | cons first rest ih =>
    rw [List.foldl_cons]
    rcases List.mem_cons.1 member with rfl | member
    · exact kept rest _ (ImportMap.contains_merge (Or.inr own))
    · exact ih member _

/-- A module imports from the validator library and from where its models ask to. -/
theorem mem_sources_moduleImports {models : List Model} {source : String}
    (h : source ∈ (moduleImports models entity owners config).sources) :
    source = libraryImport.1 ∨
      ∃ model ∈ models, ∃ symbol, (source, symbol) ∈ model.importPairs entity owners config := by
  have folded (models : List Model) (imports : ImportMap)
      (h : source ∈ (models.foldl (fun imports model =>
        imports.merge (model.imports entity owners config)) imports).sources) :
      source ∈ imports.sources ∨
        ∃ model ∈ models, ∃ symbol, (source, symbol) ∈ model.importPairs entity owners config := by
    induction models generalizing imports with
    | nil => exact Or.inl h
    | cons first rest ih =>
      rcases ih _ h with merged | ⟨model, member, asked⟩
      · rcases ImportMap.mem_sources_merge merged with earlier | own
        · exact Or.inl earlier
        · rcases ImportMap.mem_sources_insertAll.1 own with asked | impossible
          · exact Or.inr ⟨first, List.mem_cons_self, asked⟩
          · cases impossible
      · exact Or.inr ⟨model, List.mem_cons_of_mem _ member, asked⟩
  rcases folded models _ h with start | asked
  · rcases ImportMap.mem_sources_insert.1 start with library | impossible
    · exact Or.inl library
    · cases impossible
  · exact Or.inr asked

/-- A model asks for symbols of the decorator package and of schemas that it refers to or whose
classes it names, if these belong to another entity. -/
theorem source_of_mem_importPairs {model : Model} {source symbol : String}
    (asked : (source, symbol) ∈ model.importPairs entity owners config) :
    source = decoratorSource ∨
      ∃ target owner, (target ∈ model.references ∨ target ∈ model.dtoReferences) ∧
        owners.get? target = some owner ∧ owner ≠ entity ∧ source = config.modulePath owner := by
  have abroad {target path : String}
      (found : ((owners.get? target).filter (· != entity)).map config.modulePath = some path) :
      ∃ owner, owners.get? target = some owner ∧ owner ≠ entity ∧
        path = config.modulePath owner := by
    obtain ⟨owner, kept, rfl⟩ := Option.map_eq_some_iff.1 found
    obtain ⟨owned, foreign⟩ := Option.filter_eq_some_iff.1 kept
    exact ⟨owner, owned, by simpa using foreign, rfl⟩
  simp only [importPairs, List.mem_append] at asked
  rcases asked with asked | asked
  · obtain ⟨target, cited, asked⟩ := List.mem_flatMap.1 asked
    split at asked
    · simp at asked
    · rename_i path found
      obtain ⟨owner, owned, foreign, rfl⟩ := abroad found
      refine Or.inr ⟨target, owner, Or.inl cited, owned, foreign, ?_⟩
      rcases List.mem_cons.1 asked with same | asked
      · exact (Prod.mk.inj same).1
      · rw [List.mem_ite_nil_right, List.mem_singleton] at asked
        exact (Prod.mk.inj asked.2).1
  · rw [List.mem_ite_nil_right] at asked
    rcases List.mem_cons.1 asked.2 with same | asked
    · exact Or.inl (Prod.mk.inj same).1
    · obtain ⟨target, cited, asked⟩ := List.mem_flatMap.1 asked
      rw [Option.mem_toList, Option.map_eq_some_iff] at asked
      obtain ⟨path, found, same⟩ := asked
      obtain ⟨owner, owned, foreign, rfl⟩ := abroad found
      exact Or.inr ⟨target, owner, Or.inr cited, owned, foreign, (Prod.mk.inj same).1.symm⟩

/-- The symbols of a schema that the declarations of a model use: its validator, its type if that of
the model is spelled out, and its class if a decorator names it. -/
def uses (model : Model) (config : Config) (target : String) : List String :=
  config.validatorName target ::
    ((if model.isExplicit then [Naming.typeName target] else []) ++
      if config.annotations && model.isObject && model.dtoReferences.contains target then
        [Naming.dtoName target]
      else [])

/-- A model asks for all that it uses of a schema of another entity. -/
theorem mem_importPairs_of_uses {model : Model} {target owner symbol : String}
    (referred : target ∈ model.references) (owned : owners.get? target = some owner)
    (foreign : owner ≠ entity) (used : symbol ∈ model.uses config target) :
    (config.modulePath owner, symbol) ∈ model.importPairs entity owners config := by
  have abroad : ((owners.get? target).filter (· != entity)).map config.modulePath =
      some (config.modulePath owner) := by
    rw [owned, Option.filter_some, if_pos (by simpa using foreign)]
    rfl
  unfold uses at used
  simp only [List.mem_cons, List.mem_append, List.mem_ite_nil_right, List.not_mem_nil,
    or_false] at used
  simp only [importPairs, List.mem_append]
  rcases used with rfl | ⟨typed, rfl⟩ | ⟨asked, rfl⟩
  · refine Or.inl (List.mem_flatMap.2 ⟨target, referred, ?_⟩)
    rw [abroad]
    exact List.mem_cons_self
  · refine Or.inl (List.mem_flatMap.2 ⟨target, referred, ?_⟩)
    rw [abroad]
    refine List.mem_cons_of_mem _ ?_
    rw [if_pos typed]
    exact List.mem_singleton_self _
  · simp only [Bool.and_eq_true, List.contains_iff_mem] at asked
    obtain ⟨classes, cited⟩ := asked
    refine Or.inr ?_
    rw [if_pos (by simpa using classes)]
    refine List.mem_cons_of_mem _ (List.mem_flatMap.2 ⟨target, cited, ?_⟩)
    rw [abroad]
    exact List.mem_singleton_self _

end Model

end ZodModules
