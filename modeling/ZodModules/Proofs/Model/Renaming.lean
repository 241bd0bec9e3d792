import ZodModules.Model.Symbols
import ZodModules.Proofs.Data.Listings
import ZodModules.Proofs.Text.Scanning

/-!
# Renamed models

Renaming the enums of a model changes neither what it stands for nor what it refers to, and every
model that leaves the allocation of symbols is a generated one with its enums renamed.
-/

namespace ZodModules

namespace Model

variable {renames : NameMap String}

@[simp] theorem renameShape_empty (shape : Shape) : renameShape ∅ shape = shape := by
  induction shape with
  | array item ih => rw [renameShape, ih]
  | _ => rfl

@[simp] theorem dtoTarget?_renameShape (shape : Shape) :
    dtoTarget? (renameShape renames shape) = dtoTarget? shape := by
  induction shape with
  | array item ih => rw [renameShape, dtoTarget?, dtoTarget?, ih]
  | _ => rfl

@[simp] theorem EnumDeclaration.rename_empty (declaration : EnumDeclaration) :
    declaration.rename ∅ = declaration := by
  obtain ⟨constant, type, values⟩ := declaration
  cases type <;> rfl

@[simp] theorem Property.rename_empty (property : Property) : property.rename ∅ = property := by
  simp only [Property.rename, renameShape_empty, Code.rename_of_none NameMap.get?_empty]

/-- With no new names a model stays as it is. -/
@[simp] theorem rename_empty (model : Model) : model.rename ∅ = model := by
  have typing : model.typing.rename ∅ = model.typing := by
    cases model.typing with
    | inferred => rfl
    | explicit type => rw [Typing.rename, Code.rename_of_none NameMap.get?_empty]
  have enums : model.enums.map (EnumDeclaration.rename ∅) = model.enums :=
    List.map_id'' EnumDeclaration.rename_empty _
  have properties : model.properties.map (Property.rename ∅) = model.properties :=
    List.map_id'' Property.rename_empty _
  rw [rename, typing, enums, properties, Code.rename_of_none NameMap.get?_empty]

@[simp] theorem name_rename (model : Model) : (model.rename renames).name = model.name := rfl

@[simp] theorem references_rename (model : Model) :
    (model.rename renames).references = model.references := rfl

@[simp] theorem isObject_rename (model : Model) :
    (model.rename renames).isObject = model.isObject := rfl

@[simp] theorem isExplicit_rename (model : Model) :
    (model.rename renames).isExplicit = model.isExplicit := by
  unfold isExplicit rename
  cases model.typing <;> rfl

@[simp] theorem dtoReferences_rename (model : Model) :
    (model.rename renames).dtoReferences = model.dtoReferences := by
  unfold dtoReferences rename
  have same (property : Property) :
      dtoTarget? (property.rename renames).shape = dtoTarget? property.shape :=
    dtoTarget?_renameShape property.shape
  simp only [List.filterMap_map, Function.comp_def, same]

end Model

namespace SymbolTable

/-- The enums that some models declare, in the order in which they choose names. -/
def declarations (models : NameMap Model) : List (String × Model.EnumDeclaration) :=
  let all := models.entries.flatMap fun entry => entry.2.enums.map fun e => (entry.1, e)
  all.filter (·.2.type.isNone) ++ all.filter (·.2.type.isSome)

/-- The names that follow from those of the schemas, and the report on them. -/
def claimed (config : Config) (models : NameMap Model) (report : Report) : SymbolTable × Report :=
  models.values.foldl (claimModel config) (∅, report)

/-- All names that are taken in the end, and the new names of enums. -/
def allocated (config : Config) (models : NameMap Model) (report : Report) :
    SymbolTable × Renames :=
  (declarations models).foldl (fun state d => allocate state d.1 d.2)
    ((claimed config models report).1, ∅)

/-- The new names of the enums of a schema. -/
def renamesOf (config : Config) (models : NameMap Model) (report : Report) (schema : String) :
    NameMap String :=
  ((allocated config models report).2.get? schema).getD ∅

/-- A model after the allocation is the model before it with its own new names. -/
theorem get?_allocateAll (config : Config) (models : NameMap Model) (report : Report)
    (schema : String) :
    (allocateAll models config report).1.get? schema =
      (models.get? schema).map (Model.rename (renamesOf config models report schema)) := by
  show (models.mapEntries _).get? schema = _
  rw [NameMap.get?_mapEntries]
  congr 1
  funext model
  unfold renamesOf
  cases found : (allocated config models report).2.get? schema with
  | none =>
    unfold allocated claimed declarations at found
    simp only [found]
    exact model.rename_empty.symm
  | some renames =>
    unfold allocated claimed declarations at found
    simp only [found]
    rfl

/-- The allocation renames the enums of each model by the new names of its schema. -/
theorem fst_allocateAll (config : Config) (models : NameMap Model) (report : Report) :
    (allocateAll models config report).1 =
      models.mapEntries fun name model => model.rename (renamesOf config models report name) := by
  refine NameMap.ext_get? fun name => ?_
  rw [get?_allocateAll, NameMap.get?_mapEntries]

end SymbolTable

end ZodModules
