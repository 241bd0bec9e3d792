import ZodModules.Proofs.Data.Listings
import ZodModules.Proofs.Model.Importing

/-!
# Import maps as ordered sets

An import map that comes from the empty one by imports and merges stands for a history: the pairs of
source and symbol that were asked for, in turn. Its sources are those of the history as they came
first, and so are the symbols of each source. To merge two maps is to go on with the history of the
second after that of the first, so the laws of merging are laws of joined lists.
-/

namespace ZodModules

namespace ImportMap

variable {imports other : ImportMap} {history later : List (String × String)}

/-- The import maps that come from the empty one by imports and merges. -/
inductive Built : ImportMap → Prop where
  | empty : Built ∅
  | insert {imports : ImportMap} (built : Built imports) (source symbol : String) :
      Built (imports.insert source symbol)
  | merge {imports other : ImportMap} (built : Built imports) (built' : Built other) :
      Built (imports.merge other)

/-- A map of different sources, each with different symbols and at least one, that its own pairs
make up again. -/
structure IsOrderedSet (imports : ImportMap) : Prop where
  sources : imports.sources.Nodup
  symbols : ∀ entry ∈ imports.entries, entry.2 ≠ [] ∧ entry.2.Nodup
  rebuilt : (∅ : ImportMap).insertAll imports.pairs = imports

/-- What a merge holds and in which order, and the laws of an algebra of ordered sets. -/
structure MergeLaws (a b c : ImportMap) : Prop where
  contains : ∀ source symbol,
    (a.merge b).contains source symbol ↔ a.contains source symbol ∨ b.contains source symbol
  sources_prefix : a.sources <+: (a.merge b).sources
  symbols_prefix : ∀ source, a.symbols source <+: (a.merge b).symbols source
  assoc : (a.merge b).merge c = a.merge (b.merge c)
  merge_empty : a.merge ∅ = a
  empty_merge : (∅ : ImportMap).merge a = a
  merge_self : a.merge a = a

section Sources

theorem symbols_of_mem (nodup : imports.sources.Nodup) {entry : String × List String}
    (member : entry ∈ imports.entries) : imports.symbols entry.1 = entry.2 := by
  unfold symbols
  rw [(NameMap.lookup_eq_some_iff nodup).2 member, Option.getD_some]

/-- A map of different sources is determined by its sources and by the symbols of each. -/
theorem ext_symbols (nodup : imports.sources.Nodup) (sources : imports.sources = other.sources)
    (symbols : ∀ source, imports.symbols source = other.symbols source) : imports = other := by
  have listed {map : ImportMap} (nodup : map.sources.Nodup) :
      map.sources.map (fun source => (source, map.symbols source)) = map.entries := by
    unfold ImportMap.sources
    rw [List.map_map]
    refine (List.map_congr_left fun entry member => ?_).trans (List.map_id _)
    exact Prod.ext rfl (symbols_of_mem nodup member)
  have entries : imports.entries = other.entries := by
    rw [← listed nodup, ← listed (sources ▸ nodup), sources, funext symbols]
  cases imports
  cases other
  cases entries
  rfl

end Sources

section Histories

/-- The map of what is asked for in turn. -/
def ofHistory (history : List (String × String)) : ImportMap := (∅ : ImportMap).insertAll history

/-- The symbols that are asked for from a source. -/
def askedFrom (source : String) (history : List (String × String)) : List String :=
  (history.filter (·.1 == source)).map Prod.snd

theorem ofHistory_concat (history : List (String × String)) (pair : String × String) :
    ofHistory (history ++ [pair]) = (ofHistory history).insert pair.1 pair.2 :=
  List.foldl_concat ..

theorem insertAll_ofHistory (history later : List (String × String)) :
    (ofHistory history).insertAll later = ofHistory (history ++ later) :=
  List.foldl_append.symm

theorem askedFrom_append (source : String) (history later : List (String × String)) :
    askedFrom source (history ++ later) = askedFrom source history ++ askedFrom source later := by
  simp [askedFrom]

theorem askedFrom_singleton (source : String) (pair : String × String) :
    askedFrom source [pair] = if pair.1 = source then [pair.2] else [] := by
  by_cases here : pair.1 = source <;> simp [askedFrom, here]

/-- The sources stand as they were asked for first. -/
theorem sources_ofHistory (history : List (String × String)) :
    (ofHistory history).sources = (history.map Prod.fst).eraseDups := by
  induction history using List.reverseRecOn with
  | nil => rfl
  | append_singleton history pair ih =>
    rw [ofHistory_concat, sources_insert, ih, List.map_append, List.map_singleton,
      Listing.eraseDups_concat]
    simp only [List.mem_eraseDups]

/-- The symbols of a source stand as they were asked for first. -/
theorem symbols_ofHistory (source : String) (history : List (String × String)) :
    (ofHistory history).symbols source = (askedFrom source history).eraseDups := by
  induction history using List.reverseRecOn with
  | nil => rfl
  | append_singleton history pair ih =>
    rw [ofHistory_concat, symbols_insert, ih, askedFrom_append, askedFrom_singleton]
    by_cases here : source = pair.1
    · subst here
      rw [if_pos rfl, if_pos rfl, Listing.eraseDups_concat, ih]
      simp only [List.mem_eraseDups]
    · rw [if_neg here, if_neg (Ne.symm here), List.append_nil]

theorem nodup_sources (history : List (String × String)) : (ofHistory history).sources.Nodup := by
  rw [sources_ofHistory]
  exact Listing.nodup_eraseDups _

theorem nodup_symbols (history : List (String × String)) (source : String) :
    ((ofHistory history).symbols source).Nodup := by
  rw [symbols_ofHistory]
  exact Listing.nodup_eraseDups _

/-- Histories that ask for the same first make the same map. -/
theorem ofHistory_congr
    (sources : (history.map Prod.fst).eraseDups = (later.map Prod.fst).eraseDups)
    (symbols : ∀ source,
      (askedFrom source history).eraseDups = (askedFrom source later).eraseDups) :
    ofHistory history = ofHistory later := by
  apply ext_symbols (nodup_sources history)
  · rw [sources_ofHistory, sources_ofHistory, sources]
  · intro source
    rw [symbols_ofHistory, symbols_ofHistory, symbols]

theorem ne_nil_of_mem_entries {entry : String × List String}
    (member : entry ∈ (ofHistory history).entries) : entry.2 ≠ [] := by
  have asked : entry.1 ∈ history.map Prod.fst := by
    rw [← List.mem_eraseDups, ← sources_ofHistory]
    exact List.mem_map_of_mem member
  obtain ⟨pair, paired, same⟩ := List.mem_map.1 asked
  have listed : pair.2 ∈ entry.2 := by
    rw [← symbols_of_mem (nodup_sources history) member, symbols_ofHistory, List.mem_eraseDups]
    exact List.mem_map_of_mem (List.mem_filter.2 ⟨paired, by simpa using same⟩)
  exact List.ne_nil_of_mem listed

theorem pairs_cons (entry : String × List String) (rest : List (String × List String)) :
    pairs ⟨entry :: rest⟩ = entry.2.map (fun symbol => (entry.1, symbol)) ++ pairs ⟨rest⟩ :=
  List.flatMap_cons

/-- The pairs of a map ask for the symbols that it has. -/
theorem askedFrom_pairs (nodup : imports.sources.Nodup) (source : String) :
    askedFrom source imports.pairs = imports.symbols source := by
  obtain ⟨entries⟩ := imports
  induction entries with
  | nil => rfl
  | cons entry rest ih =>
    obtain ⟨key, listed⟩ := entry
    obtain ⟨fresh, nodup⟩ := List.nodup_cons.1 nodup
    rw [pairs_cons, askedFrom_append, ih nodup]
    unfold symbols askedFrom
    rw [List.lookup_cons]
    by_cases here : source = key
    · subst here
      simp [Listing.lookup_eq_none fresh, List.filter_map, Function.comp_def]
    · have different : (source == key) = false := by simpa using here
      simp [different, List.filter_map, Function.comp_def, Ne.symm here]

/-- The pairs of a map ask for its sources. -/
theorem eraseDups_map_fst_pairs (nodup : imports.sources.Nodup)
    (filled : ∀ entry ∈ imports.entries, entry.2 ≠ []) :
    (imports.pairs.map Prod.fst).eraseDups = imports.sources := by
  obtain ⟨entries⟩ := imports
  induction entries with
  | nil => rfl
  | cons entry rest ih =>
    obtain ⟨key, listed⟩ := entry
    obtain ⟨fresh, nodup⟩ := List.nodup_cons.1 nodup
    obtain ⟨nonempty, filled⟩ := List.forall_mem_cons.1 filled
    have later := ih nodup filled
    -- The first source does not come again, so only its own pairs name it.
    have others : ((pairs ⟨rest⟩).map Prod.fst).filter (!· == key) =
        (pairs ⟨rest⟩).map Prod.fst := by
      refine List.filter_eq_self.2 fun source asked => ?_
      have different : source ≠ key := by
        rintro rfl
        have listed := List.mem_eraseDups.2 asked
        rw [later] at listed
        exact fresh listed
      simpa using different
    obtain ⟨symbol, further, rfl⟩ := List.exists_cons_of_ne_nil nonempty
    have named : (pairs ⟨(key, symbol :: further) :: rest⟩).map Prod.fst =
        key :: ((further.map fun _ => key) ++ (pairs ⟨rest⟩).map Prod.fst) := by
      simp [pairs_cons, Function.comp_def]
    have own : (further.map fun _ => key).filter (!· == key) = [] := by simp
    rw [named, List.eraseDups_cons, List.filter_append, own, others, List.nil_append, later]
    rfl

/-- The pairs of a map are a history of it. -/
theorem ofHistory_pairs (history : List (String × String)) :
    ofHistory (ofHistory history).pairs = ofHistory history := by
  have nodup := nodup_sources history
  apply ext_symbols (nodup_sources _)
  · rw [sources_ofHistory]
    exact eraseDups_map_fst_pairs nodup fun _ => ne_nil_of_mem_entries
  · intro source
    rw [symbols_ofHistory, askedFrom_pairs nodup]
    exact Listing.eraseDups_of_nodup (nodup_symbols history source)

/-- To merge two maps is to go on with the history of the second. -/
theorem merge_ofHistory (history later : List (String × String)) :
    (ofHistory history).merge (ofHistory later) = ofHistory (history ++ later) := by
  rw [merge, insertAll_ofHistory]
  apply ofHistory_congr
  · rw [List.map_append, List.map_append]
    apply Listing.eraseDups_append_congr
    rw [← sources_ofHistory, ← sources_ofHistory, ofHistory_pairs]
  · intro source
    rw [askedFrom_append, askedFrom_append]
    apply Listing.eraseDups_append_congr
    rw [← symbols_ofHistory, ← symbols_ofHistory, ofHistory_pairs]

/-- An import map that comes from the empty one has a history. -/
theorem Built.exists_history (built : Built imports) : ∃ history, imports = ofHistory history := by
  induction built with
  | empty => exact ⟨[], rfl⟩
  | insert built source symbol ih =>
    obtain ⟨history, rfl⟩ := ih
    exact ⟨history ++ [(source, symbol)], (ofHistory_concat history (source, symbol)).symm⟩
  | merge built built' ih ih' =>
    obtain ⟨history, rfl⟩ := ih
    obtain ⟨later, rfl⟩ := ih'
    exact ⟨history ++ later, merge_ofHistory history later⟩

theorem isOrderedSet_ofHistory (history : List (String × String)) :
    IsOrderedSet (ofHistory history) where
  sources := nodup_sources history
  symbols := by
    intro entry member
    refine ⟨ne_nil_of_mem_entries member, ?_⟩
    rw [← symbols_of_mem (nodup_sources history) member]
    exact nodup_symbols history entry.1
  rebuilt := ofHistory_pairs history

theorem mergeLaws_ofHistory (first second third : List (String × String)) :
    MergeLaws (ofHistory first) (ofHistory second) (ofHistory third) where
  contains := by
    intro source symbol
    simp only [contains, List.contains_iff_mem, merge_ofHistory, symbols_ofHistory,
      List.mem_eraseDups, askedFrom_append, List.mem_append]
  sources_prefix := by
    rw [merge_ofHistory, sources_ofHistory, sources_ofHistory, List.map_append,
      List.eraseDups_append]
    exact List.prefix_append _ _
  symbols_prefix := by
    intro source
    rw [merge_ofHistory, symbols_ofHistory, symbols_ofHistory, askedFrom_append,
      List.eraseDups_append]
    exact List.prefix_append _ _
  assoc := by simp only [merge_ofHistory, List.append_assoc]
  merge_empty := rfl
  empty_merge := ofHistory_pairs first
  merge_self := by
    rw [merge_ofHistory]
    apply ofHistory_congr
    · rw [List.map_append, Listing.eraseDups_append_self]
    · intro source
      rw [askedFrom_append, Listing.eraseDups_append_self]

end Histories

/-- Import maps that come from the empty one are ordered sets of pairs, an import adds its own pair,
and merging is their union: it holds what either map does, what the first holds in front and in its
order. -/
theorem built_maps_are_ordered_sets {a b c : ImportMap} (built : Built a) (built' : Built b)
    (built'' : Built c) :
    a.IsOrderedSet ∧
      (∀ source symbol from_ wanted, (a.insert source symbol).contains from_ wanted ↔
        from_ = source ∧ wanted = symbol ∨ a.contains from_ wanted) ∧
      MergeLaws a b c := by
  obtain ⟨first, rfl⟩ := built.exists_history
  obtain ⟨second, rfl⟩ := built'.exists_history
  obtain ⟨third, rfl⟩ := built''.exists_history
  exact ⟨isOrderedSet_ofHistory first, fun _ _ _ _ => contains_insert,
    mergeLaws_ofHistory first second third⟩

/-- Imports that name a source twice. -/
def profileImports : ImportMap :=
  (((∅ : ImportMap).insert "./Utils" "Country").insert "zod" "z").insert "./Utils" "Address"

/-- Imports of which one is among those. -/
def userImports : ImportMap := ((∅ : ImportMap).insert "./Utils" "Address").insert "./Shop" "Order"

theorem profile_and_user_imports :
    Built profileImports ∧ Built userImports ∧
      profileImports.IsOrderedSet ∧ MergeLaws profileImports userImports profileImports ∧
      (profileImports.merge userImports).entries =
        [("./Utils", ["Country", "Address"]), ("zod", ["z"]), ("./Shop", ["Order"])] := by
  have profile : Built profileImports := ((Built.empty.insert _ _).insert _ _).insert _ _
  have user : Built userImports := (Built.empty.insert _ _).insert _ _
  obtain ⟨ordered, -, laws⟩ := built_maps_are_ordered_sets profile user profile
  exact ⟨profile, user, ordered, laws, by decide⟩

theorem Built.insertAll (built : Built imports) (pairs : List (String × String)) :
    Built (imports.insertAll pairs) := by
  induction pairs generalizing imports with
  | nil => exact built
  | cons pair rest ih => exact ih (built.insert pair.1 pair.2)

end ImportMap

namespace Model

variable {entity : String} {owners : NameMap String} {config : Config}

/-- The imports of a module are such a map. -/
theorem built_moduleImports (models : List Model) :
    (moduleImports models entity owners config).Built := by
  have merged (imports : ImportMap) (built : imports.Built) :
      (models.foldl (fun imports model => imports.merge (model.imports entity owners config))
        imports).Built := by
    induction models generalizing imports with
    | nil => exact built
    | cons model rest ih =>
      have own := ImportMap.Built.empty.insertAll (model.importPairs entity owners config)
      exact ih _ (built.merge own)
  exact merged _ (ImportMap.Built.empty.insert _ _)

end Model

end ZodModules
