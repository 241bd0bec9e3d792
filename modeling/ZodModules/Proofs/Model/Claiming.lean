import ZodModules.Proofs.Model.Exports
import ZodModules.Proofs.Model.Renaming
import ZodModules.Proofs.Report.Recording

/-!
# Claims to names

What the claims of schemas to the names that follow from theirs come to. A name belongs to the first
schema that claims it; every other one that claims it later collides with this one, whatever was
reported before.
-/

namespace ZodModules

namespace NameSpace

variable {space : NameSpace} {config : Config}

/-- The names in a space that follow from the name of a model's schema. -/
def derived (space : NameSpace) (config : Config) (model : Model) : List String :=
  space.modelName model :: model.classNames config

/-- The first of some schemas from which a name in a space follows. -/
def deriver? (space : NameSpace) (config : Config) (models : List Model) (name : String) :
    Option String :=
  (models.find? fun model => (space.derived config model).contains name).map (·.name)

theorem deriver?_append (first second : List Model) (name : String) :
    space.deriver? config (first ++ second) name =
      (space.deriver? config first name).or (space.deriver? config second name) := by
  unfold deriver?
  rw [List.find?_append]
  cases first.find? fun model => (space.derived config model).contains name <;> rfl

theorem deriver?_singleton (model : Model) (name : String) :
    space.deriver? config [model] name =
      if name ∈ space.derived config model then some model.name else none := by
  unfold deriver?
  rw [List.find?_singleton]
  by_cases member : name ∈ space.derived config model <;> simp [member]

theorem deriver?_isSome {models : List Model} {model : Model} (member : model ∈ models)
    {name : String} (derives : name ∈ space.derived config model) :
    (space.deriver? config models name).isSome := by
  unfold deriver?
  rw [Option.isSome_map, List.find?_isSome]
  exact ⟨model, member, List.contains_iff_mem.2 derives⟩

end NameSpace

namespace SymbolTable

variable {config : Config} {schema : String} {space : NameMap String} {report : Report}

/-! ## One schema -/

/-- Takes the names that are still free for a schema. -/
def takeAll (schema : String) (symbols : List String) (space : NameMap String) : NameMap String :=
  symbols.foldl (fun space symbol =>
    match space.get? symbol with
    | some _ => space
    | none => space.insert symbol schema) space

/-- The collision of a schema that claims a name with another one that it belongs to. -/
def clash? (schema : String) (space : NameMap String) (symbol : String) : Option SymbolCollision :=
  match space.get? symbol with
  | some first => if first = schema then none else some ⟨schema, first, symbol⟩
  | none => none

/-- The collisions of a schema that claims several names. -/
def clashes (schema : String) (symbols : List String) (space : NameMap String) :
    List SymbolCollision :=
  symbols.filterMap (clash? schema space)

theorem get?_takeAll (symbols : List String) (name : String) :
    (takeAll schema symbols space).get? name =
      (space.get? name).or (if name ∈ symbols then some schema else none) := by
  unfold takeAll
  induction symbols generalizing space with
  | nil => simp
  | cons symbol rest ih =>
    rw [List.foldl_cons, ih]
    cases taken : space.get? symbol with
    | some owner =>
      by_cases same : name = symbol
      · rw [same, taken]
        rfl
      · simp [same]
    | none =>
      rw [NameMap.get?_insert]
      by_cases same : name = symbol
      · rw [if_pos same, same, taken, if_pos List.mem_cons_self]
        rfl
      · simp [same]

theorem clash?_eq_some_iff {symbol : String} {e : SymbolCollision} :
    clash? schema space symbol = some e ↔
      e.schema = schema ∧ e.symbol = symbol ∧ space.get? symbol = some e.first ∧
        e.first ≠ schema := by
  obtain ⟨later, first, name⟩ := e
  unfold clash?
  cases space.get? symbol with
  | none => simp
  | some owner =>
    by_cases same : owner = schema
    · simp only [if_pos same, Option.some.injEq, reduceCtorEq, false_iff]
      rintro ⟨-, -, rfl, different⟩
      exact different same
    · simp only [if_neg same, Option.some.injEq, SymbolCollision.mk.injEq]
      constructor
      · rintro ⟨rfl, rfl, rfl⟩
        exact ⟨rfl, rfl, rfl, same⟩
      · rintro ⟨rfl, rfl, rfl, -⟩
        exact ⟨rfl, rfl, rfl⟩

theorem mem_clashes_iff {symbols : List String} {e : SymbolCollision} :
    e ∈ clashes schema symbols space ↔
      e.schema = schema ∧ e.symbol ∈ symbols ∧ space.get? e.symbol = some e.first ∧
        e.first ≠ schema := by
  unfold clashes
  simp only [List.mem_filterMap, clash?_eq_some_iff]
  constructor
  · rintro ⟨symbol, member, own, rfl, rest⟩
    exact ⟨own, member, rest⟩
  · rintro ⟨own, member, rest⟩
    exact ⟨e.symbol, member, own, rfl, rest⟩

/-- A schema does not collide with itself, whatever it has taken before. -/
theorem clashes_takeAll (taken symbols : List String) :
    clashes schema symbols (takeAll schema taken space) = clashes schema symbols space := by
  unfold clashes
  refine List.filterMap_congr fun symbol _ => ?_
  unfold clash?
  rw [get?_takeAll]
  cases space.get? symbol with
  | some owner => rfl
  | none =>
    by_cases own : symbol ∈ taken
    · rw [if_pos own]
      exact if_pos rfl
    · rw [if_neg own]
      rfl

theorem claim_eq (symbol : String) :
    claim schema symbol space report =
      (takeAll schema [symbol] space, report.recordCollisions (clashes schema [symbol] space)) := by
  unfold claim takeAll clashes
  rw [List.foldl_cons, List.filterMap_cons]
  unfold clash?
  cases space.get? symbol with
  | none => rfl
  | some first =>
    by_cases same : first = schema
    · simp only [if_pos same]
      rfl
    · simp only [if_neg same]
      rfl

/-- A schema takes what is free of the names that it claims and collides with the owners of the
others. -/
theorem claimAll_eq (schema : String) (symbols : List String) (space : NameMap String)
    (report : Report) :
    claimAll schema symbols space report =
      (takeAll schema symbols space, report.recordCollisions (clashes schema symbols space)) := by
  unfold claimAll
  induction symbols generalizing space report with
  | nil => rfl
  | cons symbol rest ih =>
    have split : clashes schema (symbol :: rest) space =
        clashes schema [symbol] space ++ clashes schema rest space :=
      List.filterMap_append (l := [symbol])
    rw [List.foldl_cons, claim_eq, ih, clashes_takeAll, Report.recordCollisions_append, split]
    rfl

/-! ## All schemas -/

/-- Takes the names that are still free for the schema of a model. -/
def takeModel (config : Config) (table : SymbolTable) (model : Model) : SymbolTable where
  values := takeAll model.name (NameSpace.values.derived config model) table.values
  types := takeAll model.name (NameSpace.types.derived config model) table.types

/-- The collisions of the schema of a model. -/
def modelClashes (config : Config) (table : SymbolTable) (model : Model) : List SymbolCollision :=
  clashes model.name (NameSpace.values.derived config model) table.values ++
    clashes model.name (NameSpace.types.derived config model) table.types

/-- The collisions of the schemas of models that come one after the other. -/
def allClashes (config : Config) : SymbolTable → List Model → List SymbolCollision
  | _, [] => []
  | table, model :: rest =>
    modelClashes config table model ++ allClashes config (takeModel config table model) rest

theorem claimModel_eq (table : SymbolTable) (model : Model) :
    claimModel config (table, report) model =
      (takeModel config table model, report.recordCollisions (modelClashes config table model)) := by
  have ofValues := claimAll_eq model.name (NameSpace.values.derived config model) table.values report
  have ofTypes := claimAll_eq model.name (NameSpace.types.derived config model) table.types
    (report.recordCollisions
      (clashes model.name (NameSpace.values.derived config model) table.values))
  unfold NameSpace.derived NameSpace.modelName Model.classNames at ofValues ofTypes
  unfold claimModel takeModel modelClashes
  simp only [← Report.recordCollisions_append, NameSpace.derived, NameSpace.modelName,
    Model.classNames, ofValues, ofTypes]

theorem foldl_claimModel_eq (models : List Model) (table : SymbolTable) :
    models.foldl (claimModel config) (table, report) =
      (models.foldl (takeModel config) table,
        report.recordCollisions (allClashes config table models)) := by
  induction models generalizing table report with
  | nil => rfl
  | cons model rest ih =>
    rw [List.foldl_cons, claimModel_eq, ih, Report.recordCollisions_append]
    rfl

theorem get?_takeModel {space : NameSpace} (table : SymbolTable) (model : Model) (name : String) :
    (space.taken (takeModel config table model)).get? name =
      ((space.taken table).get? name).or (space.deriver? config [model] name) := by
  rw [NameSpace.deriver?_singleton]
  cases space with
  | values => exact get?_takeAll _ _
  | types => exact get?_takeAll _ _

/-- A name belongs to whom it belonged before, or else to the first schema that claims it. -/
theorem get?_foldl_takeModel {space : NameSpace} (models : List Model) (table : SymbolTable)
    (name : String) :
    (space.taken (models.foldl (takeModel config) table)).get? name =
      ((space.taken table).get? name).or (space.deriver? config models name) := by
  induction models generalizing table with
  | nil => exact Option.or_none.symm
  | cons model rest ih =>
    rw [List.foldl_cons, ih, get?_takeModel, Option.or_assoc, ← NameSpace.deriver?_append]
    rfl

theorem mem_modelClashes_iff {table : SymbolTable} {model : Model} {e : SymbolCollision} :
    e ∈ modelClashes config table model ↔
      e.schema = model.name ∧ e.first ≠ e.schema ∧ ∃ space : NameSpace,
        e.symbol ∈ space.derived config model ∧ (space.taken table).get? e.symbol = some e.first := by
  unfold modelClashes
  rw [List.mem_append, mem_clashes_iff, mem_clashes_iff]
  constructor
  · rintro (⟨own, derived, owned, different⟩ | ⟨own, derived, owned, different⟩)
    · exact ⟨own, own ▸ different, .values, derived, owned⟩
    · exact ⟨own, own ▸ different, .types, derived, owned⟩
  · rintro ⟨own, different, space, derived, owned⟩
    cases space with
    | values => exact Or.inl ⟨own, derived, owned, own ▸ different⟩
    | types => exact Or.inr ⟨own, derived, owned, own ▸ different⟩

/-- A schema collides with the owner of a name that follows from its own, if that is another one:
the owner from before or the first schema that claimed the name. -/
theorem mem_allClashes_iff {models : List Model} {table : SymbolTable} {e : SymbolCollision} :
    e ∈ allClashes config table models ↔
      e.first ≠ e.schema ∧ ∃ space : NameSpace, ∃ earlier model later,
        models = earlier ++ model :: later ∧ e.schema = model.name ∧
        e.symbol ∈ space.derived config model ∧
        ((space.taken table).get? e.symbol).or (space.deriver? config earlier e.symbol) =
          some e.first := by
  induction models generalizing table with
  | nil => simp [allClashes]
  | cons model rest ih =>
    rw [allClashes, List.mem_append, mem_modelClashes_iff, ih]
    constructor
    · rintro (⟨own, different, space, derived, owned⟩ |
        ⟨different, space, earlier, other, later, rfl, own, derived, owned⟩)
      · refine ⟨different, space, [], model, rest, rfl, own, derived, ?_⟩
        rw [owned]
        rfl
      · refine ⟨different, space, model :: earlier, other, later, rfl, own, derived, ?_⟩
        rw [get?_takeModel, Option.or_assoc, ← NameSpace.deriver?_append] at owned
        exact owned
    · rintro ⟨different, space, earlier, other, later, split, own, derived, owned⟩
      cases earlier with
      | nil =>
        cases split
        refine Or.inl ⟨own, different, space, derived, ?_⟩
        rw [← owned]
        exact Option.or_none.symm
      | cons first earlier =>
        cases split
        refine Or.inr ⟨different, space, earlier, other, later, rfl, own, derived, ?_⟩
        rw [get?_takeModel, Option.or_assoc, ← NameSpace.deriver?_append]
        exact owned

/-! ## All claims -/

/-- Whose names are taken before enums choose theirs. -/
theorem get?_claimed {space : NameSpace} {models : NameMap Model} (name : String) :
    (space.taken (claimed config models report).1).get? name =
      space.deriver? config models.values name := by
  unfold claimed
  rw [foldl_claimModel_eq, get?_foldl_takeModel]
  cases space <;> rfl

/-- When no collision is reported, every name that follows from that of a schema belongs to this
schema. -/
theorem owned_of_silent {models : NameMap Model}
    (silent : (claimed config models report).2.symbolCollisions = []) (space : NameSpace)
    {model : Model} (member : model ∈ models.values) {name : String}
    (derived : name ∈ space.derived config model) :
    (space.taken (claimed config models report).1).get? name = some model.name := by
  rw [get?_claimed]
  obtain ⟨earlier, later, split⟩ := List.append_of_mem member
  cases owner : space.deriver? config earlier name with
  | none =>
    rw [split, NameSpace.deriver?_append, owner, Option.none_or, ← List.singleton_append,
      NameSpace.deriver?_append, NameSpace.deriver?_singleton, if_pos derived]
    rfl
  | some first =>
    rw [split, NameSpace.deriver?_append, owner, Option.some_or]
    refine congrArg some ?_
    by_contra different
    have clash : ⟨model.name, first, name⟩ ∈ allClashes config ∅ models.values := by
      refine mem_allClashes_iff.2
        ⟨different, space, earlier, model, later, split, rfl, derived, ?_⟩
      rw [owner]
      cases space <;> rfl
    unfold claimed at silent
    rw [foldl_claimModel_eq] at silent
    have reported : ⟨model.name, first, name⟩ ∈
        (report.recordCollisions (allClashes config ∅ models.values)).symbolCollisions :=
      Report.mem_symbolCollisions_recordCollisions.2 (Or.inr clash)
    rw [silent] at reported
    cases reported

end SymbolTable

end ZodModules
