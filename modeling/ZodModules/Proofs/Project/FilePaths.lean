import ZodModules.Proofs.Generation.Distribution
import ZodModules.Proofs.Generation.ImportGraph
import ZodModules.Proofs.Project.Builds

/-!
# Paths of generated files

Two paths are the same if they have the same components, however they are spelled. The file of a
module has its name for a component unless the name has a slash, so modules with different names
have different files. The names of tags have no slash and differ from that of the index; just the
shared entity may have any name, and two files of a build have one path only if one is its.
-/

namespace ZodModules

namespace Path

/-- The segments that lead somewhere. -/
def steps (segments : List (List Char)) : List (List Char) :=
  segments.filter fun segment => segment ≠ [] ∧ segment ≠ ['.']

/-- What segments stand for: the root or the first of them, which may be a point, and those that
lead somewhere. -/
def componentsOf : List (List Char) → List (List Char)
  | [] | [[]] => []
  | first :: rest => (if first = [] then ['/'] else first) :: steps rest

/-- The components of a path. Slashes in a row count as one; neither a slash at the end nor a point
after the beginning counts. -/
def components (path : String) : List (List Char) := componentsOf (Text.segments path.toList)

theorem steps_cons {first : List Char} (rest : List (List Char)) (named : first ≠ [])
    (leads : first ≠ ['.']) : steps (first :: rest) = first :: steps rest :=
  List.filter_cons_of_pos (decide_eq_true ⟨named, leads⟩)

theorem componentsOf_cons {first : List Char} (rest : List (List Char)) (named : first ≠ []) :
    componentsOf (first :: rest) = first :: steps rest := by
  cases first with
  | nil => exact absurd rfl named
  | cons c letters => rw [componentsOf, if_neg named]; simp

theorem componentsOf_append (first : List Char) (rest : List (List Char))
    {more : List (List Char)} (nonempty : more ≠ []) :
    componentsOf (first :: rest ++ more) =
      (if first = [] then ['/'] else first) :: (steps rest ++ steps more) := by
  have split : steps (rest ++ more) = steps rest ++ steps more := List.filter_append ..
  cases first with
  | nil =>
    cases rest with
    | nil =>
      cases more with
      | nil => exact absurd rfl nonempty
      | cons second others => rfl
    | cons second others => rw [List.cons_append, componentsOf, split]; simp
  | cons c letters => rw [List.cons_append, componentsOf_cons _ (by simp), split]; rfl

/-- A name below a directory follows a slash. -/
theorem exists_stem {directory : String} (named : directory ≠ "") :
    ∃ stem : List Char, ∀ name : String, name.toList.head? ≠ some '/' →
      (join directory name).toList = stem ++ '/' :: name.toList := by
  have nonempty : ¬ directory.isEmpty := by simpa using named
  by_cases closed : directory.toList.getLast? = some '/'
  · refine ⟨directory.toList.dropLast, fun name relative => ?_⟩
    have whole : directory.toList.dropLast ++ ['/'] = directory.toList :=
      List.dropLast_append_getLast? '/' closed
    rw [join, if_neg relative, if_pos (Or.inr closed), String.toList_append, ← whole]
    simp
  · refine ⟨directory.toList, fun name relative => ?_⟩
    rw [join, if_neg relative, if_neg (not_or.2 ⟨nonempty, closed⟩)]
    simp

/-- A name below a directory adds its segments to the components of the directory. -/
theorem exists_components_join (directory : String) :
    ∃ before : List (List Char), ∀ (name : String) (first : List Char) (rest : List (List Char)),
      Text.segments name.toList = first :: rest → first ≠ [] → first ≠ ['.'] →
        components (join directory name) = before ++ first :: steps rest := by
  have relative {name : String} {first : List Char} {rest : List (List Char)}
      (h : Text.segments name.toList = first :: rest) (named : first ≠ []) :
      name.toList.head? ≠ some '/' := by
    intro rooted
    obtain ⟨letters, eq⟩ := List.head?_eq_some_iff.1 rooted
    rw [eq, Text.segments, if_pos rfl, List.cons.injEq] at h
    exact named h.1.symm
  by_cases empty : directory = ""
  · refine ⟨[], fun name first rest h named _ => ?_⟩
    rw [components, join, if_neg (relative h named), if_pos (Or.inl (by simp [empty])), empty,
      String.empty_append, h, componentsOf_cons _ named, List.nil_append]
  · obtain ⟨stem, joined⟩ := exists_stem empty
    obtain ⟨head, tail, split⟩ := List.exists_cons_of_ne_nil (Text.segments_ne_nil stem)
    refine ⟨(if head = [] then ['/'] else head) :: steps tail, fun name first rest h named leads => ?_⟩
    rw [components, joined name (relative h named), Text.segments_append_slash, split, h,
      componentsOf_append _ _ (by simp), steps_cons rest named leads, List.cons_append]

end Path

namespace Settings

variable {settings : Settings}

/-- The file of a module whose name has no slash has the name and the extension for a component, at
one place for all modules. -/
theorem exists_components_moduleFile (settings : Settings) :
    ∃ (before : List (List Char)) (ending : List Char) (after : List (List Char)),
      ∀ module : String, module ≠ "" → '/' ∉ module.toList →
        Path.components (settings.moduleFile module) =
          before ++ (module.toList ++ '.' :: ending) :: after := by
  obtain ⟨before, joined⟩ := Path.exists_components_join settings.output.directory
  obtain ⟨ending, after, split⟩ :=
    List.exists_cons_of_ne_nil (Text.segments_ne_nil settings.output.extension.toList)
  refine ⟨before, ending, Path.steps after, fun module named plain => ?_⟩
  have letters : (module ++ "." ++ settings.output.extension).toList =
      module.toList ++ '.' :: settings.output.extension.toList := by simp
  have point : Text.segments ('.' :: settings.output.extension.toList) = ('.' :: ending) :: after := by
    rw [Text.segments, if_neg (by decide), split]
  have segments : Text.segments (module ++ "." ++ settings.output.extension).toList =
      (module.toList ++ '.' :: ending) :: after := by
    rw [letters, Text.segments_append_of_not_mem plain point]
  have long : module.toList ++ '.' :: ending ≠ ['.'] := by
    intro same
    have lengths := congrArg List.length same
    have : module.toList ≠ [] := fun empty => named (String.toList_eq_nil_iff.1 empty)
    have := List.length_pos_iff.2 this
    simp only [List.length_append, List.length_cons, List.length_nil] at lengths
    omega
  exact joined _ _ _ segments (by simp) long

/-- Modules whose names have no slash have the same file only if they have the same name. -/
theorem moduleFile_injective {module other : String} (named : module ≠ "")
    (plain : '/' ∉ module.toList) (named' : other ≠ "") (plain' : '/' ∉ other.toList)
    (same : Path.components (settings.moduleFile module) =
      Path.components (settings.moduleFile other)) : module = other := by
  obtain ⟨before, ending, after, components⟩ := exists_components_moduleFile settings
  rw [components module named plain, components other named' plain'] at same
  have letters := (List.cons.inj (List.append_cancel_left same)).1
  exact String.toList_injective (List.append_cancel_right letters)

end Settings

namespace Naming

/-- The name of a tag's module has no slash and is not that of the index. -/
theorem entityName_plain (tag : String) :
    entityName tag ≠ "" ∧ '/' ∉ (entityName tag).toList ∧ entityName tag ≠ Build.indexModule := by
  obtain ⟨c, rest, letters, start⟩ := pascalIdentifier_start tag
  have letters : (entityName tag).toList = c :: rest := letters
  refine ⟨?_, ?_, ?_⟩
  · intro empty
    rw [empty] at letters
    cases letters
  · intro slash
    have word : Code.isWordChar '/' := @isWordChar_of_mem_typeName tag '/' slash
    exact absurd word (by decide)
  · intro index
    have first : 'i' = c := (List.cons.inj ((congrArg String.toList index).symm.trans letters)).1
    rw [← first] at start
    exact absurd start (by decide)

end Naming

namespace Build

/-- No two files of a build have the same path, however it is spelled. -/
def DistinctPaths (build : Build) : Prop :=
  (build.files.map fun file => Path.components file.path).Nodup

/-- The module that a file holds. -/
def moduleOf (file : GeneratedFile) : String := file.entity.getD indexModule

section Files

variable {settings : Settings} {config : Config} {output : Output} {file other : GeneratedFile}

theorem path_of_mem_filesOf (member : file ∈ filesOf settings config output) :
    file.path = settings.moduleFile (moduleOf file) := by
  rcases List.mem_append.1 member with listed | listed
  · obtain ⟨module, -, rfl⟩ := List.mem_map.1 listed
    rfl
  · rw [List.mem_singleton.1 listed]
    rfl

theorem path_of_entity {name : String} (member : file ∈ filesOf settings config output)
    (entity : file.entity = some name) : file.path = settings.moduleFile name := by
  rw [path_of_mem_filesOf member, moduleOf, entity]
  rfl

theorem map_entity_filesOf (settings : Settings) (config : Config) (output : Output) :
    (filesOf settings config output).map (·.entity) =
      (output.modules.map (·.name)).map some ++ [none] := by
  simp [filesOf, Function.comp_def]

theorem exists_index_file (settings : Settings) (config : Config) (output : Output) :
    ∃ file ∈ filesOf settings config output,
      file.entity = none ∧ file.path = settings.moduleFile indexModule :=
  ⟨_, List.mem_append_right _ (List.mem_singleton_self _), rfl, rfl⟩

end Files

section Run

variable {settings : Settings} {config : Config} {registry : Registry} {usage : Usage}
  {file other : GeneratedFile}

/-- The files of the run on a registry. -/
abbrev runFiles (settings : Settings) (config : Config) (registry : Registry) (usage : Usage) :
    List GeneratedFile :=
  filesOf settings config (Generation.run config registry usage)

/-- A file other than that of the shared entity holds the module of a tag or the index. -/
theorem plain_of_mem_runFiles (member : file ∈ runFiles settings config registry usage)
    (apart : file.entity ≠ some config.sharedEntity) :
    moduleOf file ≠ "" ∧ '/' ∉ (moduleOf file).toList ∧
      (moduleOf file = indexModule → file.entity = none) := by
  rcases List.mem_append.1 member with listed | listed
  · obtain ⟨module, declared, rfl⟩ := List.mem_map.1 listed
    obtain ⟨tag, named⟩ := Generation.exists_tag_of_mem_modules declared fun same =>
      apart (congrArg some same)
    show module.name ≠ "" ∧ '/' ∉ module.name.toList ∧ (module.name = indexModule → _)
    obtain ⟨nonempty, plain, other⟩ := Naming.entityName_plain tag
    rw [named]
    exact ⟨nonempty, plain, fun index => absurd index other⟩
  · rw [List.mem_singleton.1 listed]
    show indexModule ≠ "" ∧ '/' ∉ indexModule.toList ∧ (indexModule = indexModule → _)
    exact ⟨by decide, by decide, fun _ => rfl⟩

theorem nodup_entities (settings : Settings) (config : Config) (registry : Registry)
    (usage : Usage) : ((runFiles settings config registry usage).map (·.entity)).Nodup := by
  rw [map_entity_filesOf, Generation.map_name_modules]
  refine List.nodup_append.2 ⟨?_, List.nodup_singleton _, ?_⟩
  · exact (NameMap.nodup_keys _).map (Option.some_injective _)
  · rintro entity listed index only rfl
    obtain ⟨name, -, named⟩ := List.mem_map.1 listed
    rw [List.mem_singleton.1 only] at named
    cases named

/-- The shared entity always has a file. -/
theorem exists_shared_file (settings : Settings) (config : Config) (registry : Registry)
    (usage : Usage) :
    ∃ file ∈ runFiles settings config registry usage, file.entity = some config.sharedEntity := by
  have known := EntityAssignment.contains_shared registry usage config.sharedEntity
  have listed : some config.sharedEntity ∈
      (runFiles settings config registry usage).map (·.entity) := by
    rw [map_entity_filesOf, Generation.map_name_modules]
    exact List.mem_append_left _ (List.mem_map_of_mem (NameMap.mem_keys_iff.2 known))
  exact List.mem_map.1 listed

/-- Files of one entity, or of none, are one file. -/
theorem eq_of_entity_eq (member : file ∈ runFiles settings config registry usage)
    (member' : other ∈ runFiles settings config registry usage)
    (same : file.entity = other.entity) : file = other :=
  List.inj_on_of_nodup_map (nodup_entities settings config registry usage) member member' same

/-- The module that a file holds tells its entity, unless that is the shared one. -/
theorem entity_eq_of_moduleOf_eq (member : file ∈ runFiles settings config registry usage)
    (member' : other ∈ runFiles settings config registry usage)
    (apart : file.entity ≠ some config.sharedEntity)
    (apart' : other.entity ≠ some config.sharedEntity)
    (held : moduleOf file = moduleOf other) : file.entity = other.entity := by
  obtain ⟨-, -, index⟩ := plain_of_mem_runFiles member apart
  obtain ⟨-, -, index'⟩ := plain_of_mem_runFiles member' apart'
  cases entity : file.entity with
  | none =>
    have first : moduleOf file = indexModule := by rw [moduleOf, entity]; rfl
    exact (index' (held.symm.trans first)).symm
  | some name =>
    cases entity' : other.entity with
    | none =>
      have second : moduleOf other = indexModule := by rw [moduleOf, entity']; rfl
      rw [index (held.trans second)] at entity
      cases entity
    | some name' =>
      rw [moduleOf, moduleOf, entity, entity'] at held
      exact congrArg some held

/-- Two files with one path are one file, unless one of them is the shared entity's. -/
theorem eq_of_components_eq (member : file ∈ runFiles settings config registry usage)
    (member' : other ∈ runFiles settings config registry usage)
    (apart : file.entity ≠ some config.sharedEntity)
    (apart' : other.entity ≠ some config.sharedEntity)
    (same : Path.components file.path = Path.components other.path) : file = other := by
  obtain ⟨named, plain, -⟩ := plain_of_mem_runFiles member apart
  obtain ⟨named', plain', -⟩ := plain_of_mem_runFiles member' apart'
  rw [path_of_mem_filesOf member, path_of_mem_filesOf member'] at same
  have held := Settings.moduleFile_injective named plain named' plain' same
  exact eq_of_entity_eq member member' (entity_eq_of_moduleOf_eq member member' apart apart' held)

theorem nodup_components_iff :
    ((runFiles settings config registry usage).map fun file => Path.components file.path).Nodup ↔
      ∀ file ∈ runFiles settings config registry usage, file.entity ≠ some config.sharedEntity →
        Path.components file.path ≠
          Path.components (settings.moduleFile config.sharedEntity) := by
  constructor
  · intro nodup file member apart same
    obtain ⟨home, listed, entity⟩ := exists_shared_file settings config registry usage
    rw [← path_of_entity listed entity] at same
    exact apart (List.inj_on_of_nodup_map nodup member listed same ▸ entity)
  · intro apart
    refine List.Nodup.map_on ?_ (List.Nodup.of_map _ (nodup_entities settings config _ _))
    intro file member other member' same
    by_cases own : file.entity = some config.sharedEntity
    · by_cases own' : other.entity = some config.sharedEntity
      · exact eq_of_entity_eq member member' (own.trans own'.symm)
      · rw [path_of_entity member own] at same
        exact absurd same.symm (apart other member' own')
    · by_cases own' : other.entity = some config.sharedEntity
      · rw [path_of_entity member' own'] at same
        exact absurd same (apart file member own)
      · exact eq_of_components_eq member member' own own' same

/-- A shared entity without a slash in its name has the path of another file only if it is named
like the index. -/
theorem apart_iff_of_plain (named : config.sharedEntity ≠ "")
    (plain : '/' ∉ config.sharedEntity.toList) :
    (∀ file ∈ runFiles settings config registry usage, file.entity ≠ some config.sharedEntity →
        Path.components file.path ≠
          Path.components (settings.moduleFile config.sharedEntity)) ↔
      config.sharedEntity ≠ indexModule := by
  constructor
  · intro apart index
    obtain ⟨file, member, unowned, path⟩ := exists_index_file settings config
      (Generation.run config registry usage)
    refine apart file member ?_ (by rw [path, index])
    rw [unowned]
    exact nofun
  · intro other file member apart same
    obtain ⟨named', plain', -⟩ := plain_of_mem_runFiles member apart
    rw [path_of_mem_filesOf member] at same
    have held := Settings.moduleFile_injective named' plain' named plain same
    cases entity : file.entity with
    | none =>
      rw [moduleOf, entity] at held
      exact other held.symm
    | some name =>
      rw [moduleOf, entity] at held
      exact apart (entity.trans (congrArg some held))

end Run

/-- The files of a build have different paths exactly if the shared entity's has that of no other
file; that is, if the shared entity's name has no slash, exactly if it is not the index's. -/
theorem distinctPaths_iff {settings : Settings} {document : OpenApi.Document} {build : Build}
    (built : ofDocument settings document = .ok build) :
    (build.DistinctPaths ↔
      ∀ file ∈ build.files, file.entity ≠ some settings.naming.sharedEntity →
        Path.components file.path ≠
          Path.components (settings.moduleFile settings.naming.sharedEntity)) ∧
    ('/' ∉ settings.naming.sharedEntity.toList →
      (build.DistinctPaths ↔ settings.naming.sharedEntity ≠ indexModule)) := by
  obtain ⟨config, output, valid, ran, rfl⟩ := ofDocument_eq_ok_iff.1 built
  obtain ⟨-, rfl⟩ := Generation.tryRun_eq_ok_iff.1 ran
  obtain ⟨shared, named⟩ := Settings.sharedEntity_of_config valid
  rw [← shared] at named ⊢
  exact ⟨nodup_components_iff, fun plain =>
    nodup_components_iff.trans (apart_iff_of_plain named plain)⟩

section Orders

open Generation (orders orderRegistry orderUsage)

/-- Settings with a shared entity of their own. -/
def sharing (entity : String) : Settings := { naming := { sharedEntity := entity } }

/-- The files for orders have different paths with the shared entity that is the default. -/
theorem distinctPaths_orders :
    ∃ document build, OpenApi.Document.ofJson orders = .ok document ∧
      ofDocument {} document = .ok build ∧ build.DistinctPaths := by
  have built : ofDocument {} ⟨none, orderRegistry, orderUsage⟩ = .ok _ :=
    ofDocument_eq_ok_iff.2 ⟨{}, _, rfl, Generation.tryRun_orders, rfl⟩
  exact ⟨_, _, Generation.ofJson_orders, built, ((distinctPaths_iff built).2 (by decide)).2 (by decide)⟩

theorem tryRun_orders_index :
    Generation.tryRun { sharedEntity := "index" } orderRegistry orderUsage =
      .ok (Generation.run { sharedEntity := "index" } orderRegistry orderUsage) := by
  refine Generation.tryRun_eq_ok_iff.2 ⟨?_, rfl⟩
  show (SymbolTable.allocateAll (Generation.drafts { sharedEntity := "index" } orderRegistry).1
    { sharedEntity := "index" } (Generation.drafts { sharedEntity := "index" } orderRegistry).2).2.outcome
      false = _
  unfold Generation.drafts
  rw [Generation.closures_orders]
  decide +kernel

/-- With a shared entity named like the index the modules of both have one path. -/
theorem not_distinctPaths_index :
    ∃ document build, OpenApi.Document.ofJson orders = .ok document ∧
      ofDocument (sharing "index") document = .ok build ∧
        (∃ file ∈ build.files, file.entity = some "index" ∧ file.path = "./generated/index.ts") ∧
          (∃ file ∈ build.files, file.entity = none ∧ file.path = "./generated/index.ts") ∧
            ¬ build.DistinctPaths := by
  have built : ofDocument (sharing "index") ⟨none, orderRegistry, orderUsage⟩ = .ok _ :=
    ofDocument_eq_ok_iff.2 ⟨{ sharedEntity := "index" }, _, rfl, tryRun_orders_index, rfl⟩
  have path : (sharing "index").moduleFile "index" = "./generated/index.ts" := by decide +kernel
  refine ⟨_, _, Generation.ofJson_orders, built, ?_, ?_, fun distinct => ?_⟩
  · obtain ⟨file, member, entity⟩ := exists_shared_file (sharing "index")
      { sharedEntity := "index" } orderRegistry orderUsage
    exact ⟨file, member, entity, (path_of_entity member entity).trans path⟩
  · obtain ⟨file, member, entity, index⟩ := exists_index_file (sharing "index")
      { sharedEntity := "index" } (Generation.run { sharedEntity := "index" } orderRegistry orderUsage)
    exact ⟨file, member, entity, index.trans path⟩
  · have apart := nodup_components_iff.1 distinct
    exact (apart_iff_of_plain (by decide) (by decide)).1 apart rfl

end Orders

end Build

end ZodModules
