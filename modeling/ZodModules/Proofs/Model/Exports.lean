import ZodModules.Model.Symbols

/-!
# Exported names

The names that the declarations of a model export. A class is both a value and a type.
-/

namespace ZodModules

namespace Model

/-- The class of a model, if there are annotations and it describes an object. -/
def classNames (model : Model) (config : Config) : List String :=
  if config.annotations && model.isObject then [Naming.dtoName model.name] else []

/-- The names of a model among the exported values. -/
def valueNames (model : Model) (config : Config) : List String :=
  model.validatorName :: model.enums.map (·.constant) ++ model.classNames config

/-- The names of a model among the exported types. -/
def typeNames (model : Model) (config : Config) : List String :=
  model.typeName :: model.enums.filterMap (·.type) ++ model.classNames config

theorem nodup_classNames (model : Model) (config : Config) : (model.classNames config).Nodup := by
  unfold classNames
  split <;> simp

end Model

theorem SymbolTable.isFree_iff {table : SymbolTable} {declaration : Model.EnumDeclaration} :
    table.isFree declaration ↔
      table.values.get? declaration.constant = none ∧
        ∀ type, declaration.type = some type → table.types.get? type = none := by
  unfold isFree NameMap.contains
  cases declaration.type with
  | none => simp
  | some type => simp

theorem SymbolTable.get?_types_add {table : SymbolTable} {schema name : String}
    {declaration : Model.EnumDeclaration} :
    (table.add schema declaration).types.get? name =
      if declaration.type = some name then some schema else table.types.get? name := by
  unfold add
  cases declaration.type with
  | none => simp
  | some type =>
    show (table.types.insert type schema).get? name = _
    rw [NameMap.get?_insert]
    simp only [Option.some.injEq, eq_comm]

/-- The spaces in which exported names have to be distinct. -/
inductive NameSpace where
  | values
  | types

namespace NameSpace

/-- The name that a model has in a space itself. -/
def modelName : NameSpace → Model → String
  | values, model => model.validatorName
  | types, model => model.typeName

/-- The name of an enum in a space. -/
def enumName? : NameSpace → Model.EnumDeclaration → Option String
  | values, declaration => some declaration.constant
  | types, declaration => declaration.type

/-- The names of a model in a space. -/
def names (space : NameSpace) (config : Config) (model : Model) : List String :=
  space.modelName model :: model.enums.filterMap space.enumName? ++ model.classNames config

/-- The names that are taken in a space. -/
def taken : NameSpace → SymbolTable → NameMap String
  | values, table => table.values
  | types, table => table.types

variable {config : Config} {model : Model}

theorem names_values : values.names config model = model.valueNames config := by
  have constants : model.enums.filterMap values.enumName? = model.enums.map (·.constant) :=
    congrFun List.filterMap_eq_map' model.enums
  unfold names Model.valueNames
  rw [constants]
  rfl

theorem names_types : types.names config model = model.typeNames config := rfl

/-- An enum is free if each of its names is in its space. -/
theorem isFree_iff_taken {table : SymbolTable} {declaration : Model.EnumDeclaration} :
    table.isFree declaration ↔ ∀ (space : NameSpace) name,
      space.enumName? declaration = some name → (space.taken table).get? name = none := by
  rw [SymbolTable.isFree_iff]
  constructor
  · rintro ⟨value, type⟩ space name has
    cases space with
    | values =>
      cases has
      exact value
    | types => exact type name has
  · intro free
    exact ⟨free .values _ rfl, free .types⟩

/-- An enum takes the names it has. -/
theorem get?_taken_add (space : NameSpace) {table : SymbolTable} {schema name : String}
    {declaration : Model.EnumDeclaration} :
    (space.taken (table.add schema declaration)).get? name =
      if space.enumName? declaration = some name then some schema
      else (space.taken table).get? name := by
  cases space with
  | values =>
    show (table.values.insert declaration.constant schema).get? name = _
    rw [NameMap.get?_insert]
    simp only [enumName?, Option.some.injEq, eq_comm]
    rfl
  | types => exact SymbolTable.get?_types_add

end NameSpace

end ZodModules
