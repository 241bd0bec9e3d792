import ZodModules.Model.Dto
import ZodModules.Data.NameMap

/-!
# Imports

What a module imports: for each source the symbols, both in the order in which they were first
asked for and without repetition.
-/

namespace ZodModules

/-- The symbols imported from each source. -/
structure ImportMap where
  entries : List (String × List String)
deriving DecidableEq

namespace ImportMap

instance : EmptyCollection ImportMap := ⟨⟨[]⟩⟩

/-- Adds a symbol to the entry of its source; a new source comes last. -/
def insertEntry (source symbol : String) : List (String × List String) → List (String × List String)
  | [] => [(source, [symbol])]
  | entry :: rest =>
    if entry.1 = source then
      (source, if entry.2.contains symbol then entry.2 else entry.2 ++ [symbol]) :: rest
    else entry :: insertEntry source symbol rest

/-- Imports a symbol from a source. -/
def insert (imports : ImportMap) (source symbol : String) : ImportMap :=
  ⟨insertEntry source symbol imports.entries⟩

/-- The pairs of source and symbol, source by source. -/
def pairs (imports : ImportMap) : List (String × String) :=
  imports.entries.flatMap fun entry => entry.2.map fun symbol => (entry.1, symbol)

/-- Imports the symbols of a list of pairs of source and symbol. -/
def insertAll (imports : ImportMap) (pairs : List (String × String)) : ImportMap :=
  pairs.foldl (fun imports pair => imports.insert pair.1 pair.2) imports

/-- Imports what either map does, in the order of the first. -/
def merge (imports other : ImportMap) : ImportMap := imports.insertAll other.pairs

/-- The symbols imported from a source. -/
def symbols (imports : ImportMap) (source : String) : List String :=
  (imports.entries.lookup source).getD []

/-- Whether a symbol is imported from a source. -/
def contains (imports : ImportMap) (source symbol : String) : Bool :=
  (imports.symbols source).contains symbol

/-- The sources. -/
def sources (imports : ImportMap) : List String := imports.entries.map Prod.fst

/-- The import statements, one for each source. -/
def render (imports : ImportMap) : String :=
  String.join (imports.entries.map fun entry =>
    r"import { " ++ ", ".intercalate entry.2 ++ r" } from '" ++ entry.1 ++ "';\n")

end ImportMap

namespace Model

/-- The source and the symbol of the validator library. -/
def libraryImport : String × String := ("zod", "z")

/-- What the declarations of a model in the module of `entity` import from the modules of other
entities: the validators of the schemas that it refers to, their types if its own is spelled out,
and the classes that its decorators name. -/
def importPairs (model : Model) (entity : String) (owners : NameMap String) (config : Config) :
    List (String × String) :=
  let foreign? (schema : String) : Option String :=
    ((owners.get? schema).filter (· != entity)).map config.modulePath
  let ofReference (schema : String) : List (String × String) :=
    match foreign? schema with
    | none => []
    | some path =>
      (path, config.validatorName schema) ::
        (if model.isExplicit then [(path, Naming.typeName schema)] else [])
  let ofDto (schema : String) : List (String × String) :=
    ((foreign? schema).map fun path => (path, Naming.dtoName schema)).toList
  model.references.flatMap ofReference ++
    (if config.annotations && model.isObject then
      (decoratorSource, decoratorSymbol) :: model.dtoReferences.flatMap ofDto
    else [])

/-- The imports of the declarations of a model. -/
def imports (model : Model) (entity : String) (owners : NameMap String) (config : Config) :
    ImportMap :=
  (∅ : ImportMap).insertAll (model.importPairs entity owners config)

/-- The imports of an entity's module, those of the validator library first. -/
def moduleImports (models : List Model) (entity : String) (owners : NameMap String)
    (config : Config) : ImportMap :=
  models.foldl (fun imports model => imports.merge (model.imports entity owners config))
    ((∅ : ImportMap).insert libraryImport.1 libraryImport.2)

end Model

end ZodModules
