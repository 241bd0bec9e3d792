import ZodModules.Proofs.Entity.Spreading
import ZodModules.Proofs.Generation.Classes
import ZodModules.Proofs.Generation.Closedness
import ZodModules.Proofs.Naming.Characters
import ZodModules.Proofs.OpenApi.Conversion

/-!
# Imports between modules

The module of a tag imports from the shared module only, as far as other modules go: whatever a
schema of one tag refers to is of the same tag or shared. The shared module imports from that of a
tag where a schema that no tag uses refers to one that the tag uses. So all modules can be listed
with imports leading back only, unless the shared module and that of a tag import each other.
-/

namespace ZodModules

namespace Config

variable {config : Config}

theorem modulePath_injective {first second : String}
    (h : config.modulePath first = config.modulePath second) : first = second := by
  have letters := congrArg String.toList h
  rw [modulePath, modulePath, String.toList_append, String.toList_append,
    List.append_cancel_left_eq] at letters
  exact String.toList_injective letters

/-- The path of a tag's module has a capital letter or an underscore. -/
theorem modulePath_entityName_ne {source tag : String}
    (plain : (source.toList.any fun c => c.isUpper || c == '_') = false) :
    config.modulePath (Naming.entityName tag) ≠ source := by
  rintro rfl
  obtain ⟨c, rest, letters, start⟩ := Naming.pascalIdentifier_start tag
  have inside : c ∈ (config.modulePath (Naming.entityName tag)).toList := by
    rw [modulePath, String.toList_append, Naming.entityName, letters]
    exact List.mem_append_right _ List.mem_cons_self
  have absent := List.any_eq_false.1 plain c inside
  rw [Bool.or_eq_true, beq_iff_eq] at absent
  exact absent start

end Config

namespace EntityModule

/-- A module imports from another one. -/
def ImportsFrom (module home : EntityModule) : Prop := home.path ∈ module.imports.sources

instance (module home : EntityModule) : Decidable (module.ImportsFrom home) :=
  inferInstanceAs (Decidable (home.path ∈ module.imports.sources))

/-- In a list of modules what each imports from is listed before it. -/
def LeadBack (modules listed : List EntityModule) : Prop :=
  ∀ before module after, listed = before ++ module :: after →
    ∀ home ∈ modules, module.ImportsFrom home → home ∈ before

/-- Of modules listed that way no two import from each other: each would stand before the other. -/
theorem LeadBack.not_mutual {modules listed : List EntityModule} (leadBack : LeadBack modules listed)
    {before after : List EntityModule} {module home : EntityModule}
    (split : listed = before ++ module :: after) (member : module ∈ modules)
    (other : home ∈ modules) (imports : module.ImportsFrom home) : ¬ home.ImportsFrom module := by
  intro back
  obtain ⟨first, second, whole⟩ :=
    List.append_of_mem (leadBack before module after split home other imports)
  have earlier : listed = first ++ home :: (second ++ module :: after) := by
    rw [split, whole, List.append_assoc, List.cons_append]
  have shorter : first.length < before.length := by
    rw [whole, List.length_append, List.length_cons]
    omega
  exact leadBack.not_mutual earlier other member back imports
termination_by before.length

end EntityModule

namespace Output

/-- The modules can be listed so that each imports only from modules listed before it. -/
def Layered (output : Output) : Prop :=
  ∃ listed : List EntityModule, listed.Perm output.modules ∧
    EntityModule.LeadBack output.modules listed

/-- The module of an entity imports from a module. -/
def LendsTo (output : Output) (entity : String) (module : EntityModule) : Prop :=
  ∃ borrower ∈ output.modules, borrower.name = entity ∧ borrower.ImportsFrom module

instance (output : Output) (entity : String) (module : EntityModule) :
    Decidable (output.LendsTo entity module) :=
  inferInstanceAs (Decidable (∃ borrower ∈ output.modules, borrower.name = entity ∧ _))

/-- The place of a module around that of an entity: what this imports from comes before it, all
else after it. -/
def rank (output : Output) (entity : String) (module : EntityModule) : Nat :=
  if module.name = entity then 1 else if output.LendsTo entity module then 0 else 2

variable {output : Output}

/-- Modules with ranks that fall along imports can be listed by rank. -/
theorem layered_of_rank (rank : EntityModule → Nat)
    (falls : ∀ module ∈ output.modules, ∀ home ∈ output.modules, module.ImportsFrom home →
      rank home < rank module) : output.Layered := by
  let le (first second : EntityModule) : Bool := rank first ≤ rank second
  have sorted : (output.modules.mergeSort le).Pairwise fun a b => le a b :=
    List.pairwise_mergeSort (by simp only [le, decide_eq_true_eq]; omega)
      (by simp only [le, Bool.or_eq_true, decide_eq_true_eq]; omega) _
  refine ⟨_, List.mergeSort_perm _ le, ?_⟩
  intro before module after split home member imports
  have same (m : EntityModule) : m ∈ before ++ module :: after ↔ m ∈ output.modules :=
    split ▸ List.mem_mergeSort
  have lower := falls module ((same module).1 (by simp)) home member imports
  rcases List.mem_append.1 ((same home).2 member) with first | later
  · exact first
  · rw [split] at sorted
    have least := (List.pairwise_cons.1 (List.pairwise_append.1 sorted).2.1).1
    rcases List.mem_cons.1 later with rfl | later
    · omega
    · have above : rank module ≤ rank home := of_decide_eq_true (least home later)
      omega

/-- Of modules that can be listed no two import from each other. -/
theorem Layered.not_mutual (layered : output.Layered) {module home : EntityModule}
    (member : module ∈ output.modules) (other : home ∈ output.modules)
    (imports : module.ImportsFrom home) : ¬ home.ImportsFrom module := by
  obtain ⟨listed, perm, leadBack⟩ := layered
  obtain ⟨before, after, split⟩ := List.append_of_mem (perm.mem_iff.2 member)
  exact leadBack.not_mutual split member other imports

end Output

namespace Generation

variable {config : Config} {registry : Registry} {usage : Usage}

theorem owner_eq_some_iff {schema entity : String} :
    (run config registry usage).owners.get? schema = some entity ↔
      registry.contains schema ∧
        EntityAssignment.ownerOf usage config.sharedEntity schema = entity := by
  show (EntityAssignment.ofUsage registry usage config.sharedEntity).owners.get? schema = _ ↔ _
  rw [EntityAssignment.get?_owners_ofUsage]
  by_cases registered : registry.contains schema
  · simp [registered]
  · simp [registered]

/-- Modules import from the validator library, from the decorator package and from the modules of
schemas that their own refer to. -/
theorem refers_of_mem_sources {module : EntityModule}
    (member : module ∈ (run config registry usage).modules) {source : String}
    (imported : source ∈ module.imports.sources) :
    source = Model.libraryImport.1 ∨ source = Model.decoratorSource ∨
      ∃ schema target, registry.Resolves schema ∧ registry.Refers schema target ∧
        EntityAssignment.ownerOf usage config.sharedEntity schema = module.name ∧
        EntityAssignment.ownerOf usage config.sharedEntity target ≠ module.name ∧
        source = config.modulePath
          (EntityAssignment.ownerOf usage config.sharedEntity target) := by
  obtain ⟨entity, schemas, listed, assembled⟩ := mem_modules_iff.1 member
  have whole : source = Model.libraryImport.1 ∨ ∃ model ∈ module.models, ∃ symbol,
      (source, symbol) ∈ model.importPairs module.name (run config registry usage).owners config := by
    subst assembled
    exact Model.mem_sources_moduleImports imported
  rcases whole with library | ⟨model, declared, symbol, asked⟩
  · exact Or.inl library
  · rcases Model.source_of_mem_importPairs asked with decorators | ⟨target, owner, cited, owned,
      foreign, path⟩
    · exact Or.inr (Or.inl decorators)
    · obtain ⟨found, home⟩ := (mem_models_iff member).1 declared
      have refers : registry.Refers model.name target := by
        rcases cited with reference | dto
        · exact (refers_of_mem_references found reference).1
        · exact refers_of_mem_dtoReferences found dto
      have resolves := (exists_final_iff.1 ⟨model, found⟩).2
      obtain ⟨-, same⟩ := owner_eq_some_iff.1 home
      obtain ⟨-, rfl⟩ := owner_eq_some_iff.1 owned
      exact Or.inr (Or.inr ⟨model.name, target, resolves, refers, same, foreign, path⟩)

/-- A module imports from the home of whatever its models refer to. -/
theorem importsFrom_of_mem_references {module home : EntityModule}
    (member : module ∈ (run config registry usage).modules)
    (other : home ∈ (run config registry usage).modules) {name target : String} {model : Model}
    (found : (finals config registry).get? name = some model) (cited : target ∈ model.references)
    (owner : EntityAssignment.ownerOf usage config.sharedEntity name = module.name)
    (target_owner : EntityAssignment.ownerOf usage config.sharedEntity target = home.name)
    (foreign : home.name ≠ module.name) : module.ImportsFrom home := by
  have registered := (exists_final_iff.1 ⟨model, found⟩).1
  obtain ⟨referred, referred_found⟩ := exists_referred found cited
  have target_registered := (exists_final_iff.1 ⟨referred, referred_found⟩).1
  have declared : model ∈ module.models := by
    rw [mem_models_iff member, name_of_get?_finals found]
    exact ⟨found, owner_eq_some_iff.2 ⟨registered, owner⟩⟩
  have asked : (config.modulePath home.name, config.validatorName target) ∈
      model.importPairs module.name (run config registry usage).owners config :=
    Model.mem_importPairs_of_uses cited (owner_eq_some_iff.2 ⟨target_registered, target_owner⟩)
      foreign List.mem_cons_self
  unfold EntityModule.ImportsFrom
  rw [path_of_mem_modules other]
  exact ImportMap.mem_sources_of_contains (contains_imports member declared asked)

/-- Which module is imported from, its name tells. -/
theorem importsFrom_of_name_eq {module first second : EntityModule}
    (first_member : first ∈ (run config registry usage).modules)
    (second_member : second ∈ (run config registry usage).modules)
    (same : first.name = second.name) (imports : module.ImportsFrom first) :
    module.ImportsFrom second := by
  unfold EntityModule.ImportsFrom at imports ⊢
  rwa [path_of_mem_modules second_member, ← same, ← path_of_mem_modules first_member]

/-- Other than the shared module there are modules of tags only. -/
theorem exists_tag_of_mem_modules {module : EntityModule}
    (member : module ∈ (run config registry usage).modules)
    (apart : module.name ≠ config.sharedEntity) : ∃ tag, module.name = Naming.entityName tag := by
  obtain ⟨entity, schemas, listed, rfl⟩ := mem_modules_iff.1 member
  obtain ⟨schema, -, owner⟩ := (EntityAssignment.shared_or_owner listed).resolve_left apart
  obtain ⟨tag, named, -⟩ := EntityAssignment.exists_tag_of_ownerOf_ne (owner ▸ apart)
  exact ⟨tag, owner.symm.trans named⟩

/-- The module of a tag is not named like a package. -/
theorem path_ne_package {module : EntityModule}
    (member : module ∈ (run config registry usage).modules)
    (apart : module.name ≠ config.sharedEntity) :
    module.path ≠ Model.libraryImport.1 ∧ module.path ≠ Model.decoratorSource := by
  obtain ⟨tag, named⟩ := exists_tag_of_mem_modules member apart
  rw [path_of_mem_modules member, named]
  exact ⟨Config.modulePath_entityName_ne (by decide +kernel),
    Config.modulePath_entityName_ne (by decide +kernel)⟩

section Closed

variable (closed : usage.IsClosed registry)

include closed

/-- The module of a tag imports from no module but the shared one. -/
theorem source_of_tag_module {module : EntityModule}
    (member : module ∈ (run config registry usage).modules)
    (apart : module.name ≠ config.sharedEntity) {source : String}
    (imported : source ∈ module.imports.sources) :
    source = Model.libraryImport.1 ∨ source = Model.decoratorSource ∨
      source = config.modulePath config.sharedEntity := by
  rcases refers_of_mem_sources member imported with library | decorators |
    ⟨schema, target, resolves, refers, owner, foreign, rfl⟩
  · exact Or.inl library
  · exact Or.inr (Or.inl decorators)
  · rw [← owner] at apart foreign
    have shared := (EntityAssignment.ownerOf_of_refers closed resolves refers apart).resolve_left
      foreign
    rw [shared]
    exact Or.inr (Or.inr rfl)

/-- A module that the module of a tag imports from is the shared one. -/
theorem shared_of_importsFrom {module home : EntityModule}
    (member : module ∈ (run config registry usage).modules)
    (apart : module.name ≠ config.sharedEntity)
    (other : home ∈ (run config registry usage).modules) (imports : module.ImportsFrom home) :
    home.name = config.sharedEntity := by
  by_contra foreign
  rcases source_of_tag_module closed member apart imports with library | decorators | shared
  · exact (path_ne_package other foreign).1 library
  · exact (path_ne_package other foreign).2 decorators
  · rw [path_of_mem_modules other] at shared
    exact foreign (Config.modulePath_injective shared)

/-- All modules can be listed with imports leading back only exactly if the shared module imports
from none that imports from it. -/
theorem layered_run_iff :
    (run config registry usage).Layered ↔
      ∀ shared ∈ (run config registry usage).modules, shared.name = config.sharedEntity →
        ∀ home ∈ (run config registry usage).modules,
          shared.ImportsFrom home → ¬ home.ImportsFrom shared := by
  constructor
  · intro layered shared member _ home other
    exact layered.not_mutual member other
  · intro apart
    refine Output.layered_of_rank ((run config registry usage).rank config.sharedEntity) ?_
    intro module member home other imports
    unfold Output.rank
    by_cases shared : module.name = config.sharedEntity
    · have foreign : home.name ≠ config.sharedEntity := by
        intro named
        have itself : module.ImportsFrom module :=
          importsFrom_of_name_eq other member (named.trans shared.symm) imports
        exact apart module member shared module member itself itself
      have lends : (run config registry usage).LendsTo config.sharedEntity home :=
        ⟨module, member, shared, imports⟩
      rw [if_neg foreign, if_pos lends, if_pos shared]
      omega
    · have named := shared_of_importsFrom closed member shared other imports
      have keeps : ¬ (run config registry usage).LendsTo config.sharedEntity module := by
        rintro ⟨borrower, borrows, borrower_named, borrowed⟩
        refine apart borrower borrows borrower_named module member borrowed ?_
        exact importsFrom_of_name_eq other borrows (named.trans borrower_named.symm) imports
      rw [if_pos named, if_neg shared, if_neg keeps]
      omega

/-- If every schema is used by some tag and the shared module is not named like a package then the
shared module imports from no module: its schemas refer to none that belongs to one tag. -/
theorem not_importsFrom_of_used
    (used : ∀ schema, registry.contains schema → ∃ tag, usage.Uses tag schema)
    (library : config.modulePath config.sharedEntity ≠ Model.libraryImport.1)
    (decorators : config.modulePath config.sharedEntity ≠ Model.decoratorSource)
    {shared home : EntityModule} (member : shared ∈ (run config registry usage).modules)
    (named : shared.name = config.sharedEntity)
    (other : home ∈ (run config registry usage).modules) : ¬ shared.ImportsFrom home := by
  intro imports
  have outside : home.path ≠ Model.libraryImport.1 ∧ home.path ≠ Model.decoratorSource := by
    by_cases tagged : home.name = config.sharedEntity
    · rw [path_of_mem_modules other, tagged]
      exact ⟨library, decorators⟩
    · exact path_ne_package other tagged
  rcases refers_of_mem_sources member imports with package | package |
    ⟨schema, target, resolves, refers, owner, foreign, -⟩
  · exact outside.1 package
  · exact outside.2 package
  · rw [named] at owner foreign
    obtain ⟨source, registered, cites⟩ := refers
    obtain ⟨tag, uses⟩ := used schema (Registry.contains_of_get? registered)
    exact EntityAssignment.not_uses_of_refers closed resolves ⟨source, registered, cites⟩ owner
      foreign tag uses

end Closed

section Orders

open OpenApi

/-- A reference to a schema of a document. -/
def referenceTo (schema : String) : Json := .object [("$ref", .string (schemaPrefix ++ schema))]

/-- An operation of a tag that answers with a schema. -/
def answering (tag schema : String) : Json :=
  .object [("tags", .array [.string tag]), ("responses", .object [("200", .object
    [("content", .object [("application/json", .object [("schema", referenceTo schema)])])])])]

/-- A schema object with one property, a reference. -/
def holding (property schema : String) : Json :=
  .object [("type", .string "object"),
    ("properties", .object [(property, referenceTo schema)])]

/-- Drafts, which no operation uses, hold an order, and orders an amount of money. -/
def orderSchemas : Components :=
  [("Draft", holding "order" "Order"), ("Order", holding "total" "Money"),
    ("Money", .object [("type", .string "string")])]

/-- A document with operations of one tag on orders and of another on amounts of money. -/
def orders : Json :=
  .object [("openapi", .string "3.0.3"),
    ("paths", .object [("/orders", .object [("get", answering "Orders" "Order")]),
      ("/invoices", .object [("get", answering "Invoices" "Money")])]),
    ("components", .object [("schemas", .object orderSchemas)])]

/-- The schemas of the document. -/
def orderRegistry : Registry :=
  let objectWith (property schema : String) : Schema :=
    .ofKind (.object [⟨property, .ofKind (.ref schema)⟩] ∅)
  .ofList [("Draft", objectWith "order" "Order"), ("Order", objectWith "total" "Money"),
    ("Money", .ofKind (.string {}))]

/-- Orders have one tag, amounts of money have two. -/
def orderUsage : Usage :=
  .ofList [("Order", "Orders"), ("Money", "Orders"), ("Money", "Invoices")]

theorem convertWithin_holding {components : Components} {property schema : String}
    (plain : refName (schemaPrefix ++ schema) = schema) :
    convertWithin components ∅ (holding property schema) =
      .ofKind (.object [⟨property, .ofKind (.ref schema)⟩] ∅) := by
  have target : convertWithin components ∅ (referenceTo schema) = .ofKind (.ref schema) := by
    have named : ((referenceTo schema).get? "$ref").bind Json.string? =
        some (schemaPrefix ++ schema) := rfl
    rw [convertWithin_of_reference named, plain]
    rfl
  have uncomposed : ∀ key ∈ ["$ref", "oneOf", "anyOf", "allOf"],
      (holding property schema).get? key = none := by
    simp [holding, Json.get?, List.lookup_cons]
  have only : valueTypes (holding property schema) = ["object"] := rfl
  have declared : (holding property schema).get? "properties" =
      some (.object [(property, referenceTo schema)]) := rfl
  rw [convertWithin_of_type uncomposed only, convertTyped_object declared rfl, convertProperties,
    convertProperties, target]
  rfl

theorem registryOf_orders : registryOf orderSchemas = orderRegistry := by
  have draft : convertWithin orderSchemas ∅ (holding "order" "Order") = _ :=
    convertWithin_holding (by decide +kernel)
  have order : convertWithin orderSchemas ∅ (holding "total" "Money") = _ :=
    convertWithin_holding (by decide +kernel)
  have money : convertWithin orderSchemas ∅ (.object [("type", .string "string")]) =
      .ofKind (.string {}) := by
    have only : valueTypes (.object [("type", .string "string")]) = ["string"] := rfl
    rw [convertWithin_of_type (by simp [Json.get?, List.lookup_cons]) only, convertTyped, if_pos rfl]
    rfl
  show Registry.ofList [("Draft", convertWithin orderSchemas ∅ (holding "order" "Order")),
    ("Order", convertWithin orderSchemas ∅ (holding "total" "Money")),
    ("Money", convertWithin orderSchemas ∅ (.object [("type", .string "string")]))] = _
  rw [draft, order, money]
  rfl

theorem closures_orders :
    ClosureIndex.ofRegistry orderRegistry =
      ⟨NameMap.ofList [("Draft", .ok (.ofList ["Order", "Money"])),
        ("Order", .ok (.ofList ["Money"])), ("Money", .ok ∅)]⟩ := by
  have draft : orderRegistry.closure "Draft" = .ok (.ofList ["Order", "Money"]) := by
    show orderRegistry.search "Draft" ["Draft", "Money", "Order"] ∅ [("Draft", "Order")] = _
    rw [Registry.search_of_fresh (by decide) rfl rfl (by decide)]
    show orderRegistry.search "Draft" _ _ [("Order", "Money")] = _
    rw [Registry.search_of_fresh (by decide) rfl rfl (by decide)]
    show orderRegistry.search "Draft" _ _ [] = _
    rw [Registry.search]
    decide +kernel
  have order : orderRegistry.closure "Order" = .ok (.ofList ["Money"]) := by
    show orderRegistry.search "Order" ["Draft", "Money", "Order"] ∅ [("Order", "Money")] = _
    rw [Registry.search_of_fresh (by decide) rfl rfl (by decide)]
    show orderRegistry.search "Order" _ _ [] = _
    rw [Registry.search]
    decide +kernel
  have money : orderRegistry.closure "Money" = .ok ∅ := Registry.closure_of_refs_eq_nil rfl rfl
  show (⟨⟨[("Draft", orderRegistry.closure "Draft"), ("Money", orderRegistry.closure "Money"),
    ("Order", orderRegistry.closure "Order")], _⟩⟩ : ClosureIndex) = _
  simp only [draft, order, money]
  rfl

theorem operationUses_answering {document item : Json} {registry : Registry} {tag schema : String}
    (own : item.get? "parameters" = none)
    (named : schemaName? (schemaPrefix ++ schema) = some schema)
    (present : schemaPrefix ++ schema ∈ strings document) (registered : registry.contains schema) :
    operationUses document registry item (answering tag schema) = [(schema, tag)] := by
  have references : operationReferences item (answering tag schema) =
      [schemaPrefix ++ schema] := by
    rw [operationReferences, own]
    rfl
  have tags : tagsOf (answering tag schema) = [tag] := rfl
  rw [operationUses, tags, references, reachedSchemas_of_schemaName named present]
  show ([schema].filter registry.contains).flatMap (fun schema => [(schema, tag)]) = _
  rw [List.filter_cons_of_pos registered]
  rfl

theorem usageOf_orders : usageOf orders orderRegistry = orderUsage := by
  have order : operationUses orders orderRegistry (.object [("get", answering "Orders" "Order")])
      (answering "Orders" "Order") = [("Order", "Orders")] :=
    operationUses_answering rfl (by decide +kernel) (by decide +kernel) rfl
  have money : operationUses orders orderRegistry
      (.object [("get", answering "Invoices" "Money")]) (answering "Invoices" "Money") =
        [("Money", "Invoices")] :=
    operationUses_answering rfl (by decide +kernel) (by decide +kernel) rfl
  have uses : documentUses orders orderRegistry =
      [("Order", "Orders"), ("Money", "Invoices")] := by
    show operationUses orders orderRegistry _ _ ++ [] ++
      (operationUses orders orderRegistry _ _ ++ [] ++ []) = _
    rw [order, money]
    rfl
  rw [usageOf, closures_orders, uses]
  decide +kernel

theorem ofJson_orders : Document.ofJson orders = .ok ⟨none, orderRegistry, orderUsage⟩ := by
  rw [← usageOf_orders, ← registryOf_orders]
  rfl

theorem tryRun_orders :
    tryRun {} orderRegistry orderUsage = .ok (run {} orderRegistry orderUsage) := by
  have silent : (run {} orderRegistry orderUsage).report = ∅ := by
    show (SymbolTable.allocateAll (drafts {} orderRegistry).1 {} (drafts {} orderRegistry).2).2 = _
    unfold drafts
    rw [closures_orders]
    decide +kernel
  have success : (run {} orderRegistry orderUsage).report.outcome false = .ok () := by
    have nothing : (∅ : Report).all = [] := rfl
    rw [silent]
    simp [Report.outcome, Report.resolutionErrors, Report.symbolCollisions, nothing]
  show ((run {} orderRegistry orderUsage).report.outcome false).bind _ = _
  rw [success]
  rfl

theorem owners_orders :
    EntityAssignment.ownerOf orderUsage "Utils" "Draft" = "Utils" ∧
      EntityAssignment.ownerOf orderUsage "Utils" "Order" = "Orders" ∧
      EntityAssignment.ownerOf orderUsage "Utils" "Money" = "Utils" := by
  decide +kernel

/-- The shared module has drafts and amounts of money, that of the tag has orders. -/
theorem exists_modules_orders :
    ∃ shared ∈ (run {} orderRegistry orderUsage).modules,
      ∃ tagged ∈ (run {} orderRegistry orderUsage).modules,
        shared.name = "Utils" ∧ tagged.name = "Orders" ∧
          shared.ImportsFrom tagged ∧ tagged.ImportsFrom shared := by
  have references : ((finals {} orderRegistry).get? "Draft").map (·.references) = some ["Order"] ∧
      ((finals {} orderRegistry).get? "Order").map (·.references) = some ["Money"] := by
    unfold finals drafts
    rw [closures_orders]
    decide +kernel
  obtain ⟨of_draft, of_order⟩ := references
  obtain ⟨draft, draft_found, draft_cites⟩ := Option.map_eq_some_iff.1 of_draft
  obtain ⟨order, order_found, order_cites⟩ := Option.map_eq_some_iff.1 of_order
  obtain ⟨draft_owner, order_owner, money_owner⟩ := owners_orders
  obtain ⟨shared, member, -, shared_home⟩ := exists_home orderUsage draft_found
  obtain ⟨tagged, other, -, tagged_home⟩ := exists_home orderUsage order_found
  have shared_named : shared.name = "Utils" :=
    (owner_eq_some_iff.1 shared_home).2.symm.trans draft_owner
  have tagged_named : tagged.name = "Orders" :=
    (owner_eq_some_iff.1 tagged_home).2.symm.trans order_owner
  have cites_order : "Order" ∈ draft.references := draft_cites ▸ List.mem_singleton_self _
  have cites_money : "Money" ∈ order.references := order_cites ▸ List.mem_singleton_self _
  have apart : shared.name ≠ tagged.name := by
    rw [shared_named, tagged_named]
    decide
  exact ⟨shared, member, tagged, other, shared_named, tagged_named,
    importsFrom_of_mem_references member other draft_found cites_order
      (draft_owner.trans shared_named.symm) (order_owner.trans tagged_named.symm) apart.symm,
    importsFrom_of_mem_references other member order_found cites_money
      (order_owner.trans tagged_named.symm) (money_owner.trans shared_named.symm) apart⟩

end Orders

/-- Of the modules for a document those of tags import from the validator library, the decorator
package and the shared module only. -/
theorem tag_modules_import_shared {content : Json} {document : OpenApi.Document}
    (loaded : OpenApi.Document.ofJson content = .ok document) (config : Config) :
    ∀ module ∈ (run config document.registry document.usage).modules,
      module.name ≠ config.sharedEntity → ∀ source ∈ module.imports.sources,
        source = Model.libraryImport.1 ∨ source = Model.decoratorSource ∨
          source = config.modulePath config.sharedEntity := by
  intro module member apart source imported
  exact source_of_tag_module (OpenApi.isClosed_of_ofJson loaded) member apart imported

/-- The module of orders does import from the shared one. -/
theorem imports_orders :
    ∃ document, OpenApi.Document.ofJson orders = .ok document ∧
      ∃ module ∈ (run {} document.registry document.usage).modules,
        module.name = "Orders" ∧ "./Utils" ∈ module.imports.sources ∧
          ∀ source ∈ module.imports.sources,
            source = "zod" ∨ source = "@nestjs/swagger" ∨ source = "./Utils" := by
  obtain ⟨shared, member, tagged, other, shared_named, tagged_named, -, imports⟩ :=
    exists_modules_orders
  have path : shared.path = "./Utils" := by
    rw [path_of_mem_modules member, shared_named]
    rfl
  have apart : tagged.name ≠ "Utils" := by
    rw [tagged_named]
    decide
  refine ⟨_, ofJson_orders, tagged, other, tagged_named, ?_, ?_⟩
  · rw [← path]
    exact imports
  · exact tag_modules_import_shared ofJson_orders {} tagged other apart

/-- The modules for a document can be listed with imports leading back only exactly if the shared
one imports from none that imports from it. -/
theorem layered_document_iff {content : Json} {document : OpenApi.Document}
    (loaded : OpenApi.Document.ofJson content = .ok document) (config : Config) :
    (run config document.registry document.usage).Layered ↔
      ∀ shared ∈ (run config document.registry document.usage).modules,
        shared.name = config.sharedEntity →
          ∀ home ∈ (run config document.registry document.usage).modules,
            shared.ImportsFrom home → ¬ home.ImportsFrom shared :=
  layered_run_iff (OpenApi.isClosed_of_ofJson loaded)

/-- The modules for orders can be listed that way exactly if the shared one does not import from
one that imports from it. -/
theorem layered_orders_iff :
    ∃ document, OpenApi.Document.ofJson orders = .ok document ∧
      ((run {} document.registry document.usage).Layered ↔
        ∀ shared ∈ (run {} document.registry document.usage).modules, shared.name = "Utils" →
          ∀ home ∈ (run {} document.registry document.usage).modules,
            shared.ImportsFrom home → ¬ home.ImportsFrom shared) :=
  ⟨_, ofJson_orders, layered_document_iff ofJson_orders {}⟩

/-- Because of the drafts there is no such list of the modules for orders, although the run
succeeds. -/
theorem not_layered_orders :
    ∃ document output, OpenApi.Document.ofJson orders = .ok document ∧
      tryRun {} document.registry document.usage = .ok output ∧ ¬ output.Layered := by
  refine ⟨_, _, ofJson_orders, tryRun_orders, ?_⟩
  intro layered
  obtain ⟨shared, member, tagged, other, -, -, lends, borrows⟩ := exists_modules_orders
  exact layered.not_mutual member other lends borrows

/-- The modules for a document can be listed that way if every schema is used by some tag and the
shared module is not named like a package. -/
theorem layered_document_of_used {content : Json} {document : OpenApi.Document}
    (loaded : OpenApi.Document.ofJson content = .ok document) (config : Config)
    (used : ∀ schema, document.registry.contains schema → ∃ tag, document.usage.Uses tag schema)
    (library : config.modulePath config.sharedEntity ≠ Model.libraryImport.1)
    (decorators : config.modulePath config.sharedEntity ≠ Model.decoratorSource) :
    (run config document.registry document.usage).Layered := by
  have closed := OpenApi.isClosed_of_ofJson loaded
  refine (layered_run_iff closed).2 ?_
  intro shared member named home other imports
  exact absurd imports (not_importsFrom_of_used closed used library decorators member named other)

end Generation

end ZodModules
