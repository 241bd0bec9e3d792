import ZodModules.Proofs.Expr.MappingTasks

/-!
# Parts that are mapped

A mapping comes to some of the parts of a schema, one after the other. What it reports are the notes
on these parts in this order; if it fails, then those on the parts before the one at which it fails.
-/

namespace ZodModules

namespace Schema

open Mapping (isDictionary isNull childPath)

/-- A part of a schema: the numbers of the parts on the way to it, from the outside in; the segments
of its path; and what stands there. -/
structure Part where
  position : List Nat
  segments : List String
  schema : Schema

namespace Part

/-- The whole of a schema. -/
def whole (schema : Schema) : Part := ⟨[], [], schema⟩

/-- A part of what is itself a part. -/
def within (index : Nat) (segments : List String) (part : Part) : Part where
  position := index :: part.position
  segments := segments ++ part.segments
  schema := part.schema

/-- The path of a part of the value at a path. -/
def pathFrom (path : String) (part : Part) : String := part.segments.foldl childPath path

@[simp] theorem schema_whole (schema : Schema) : (whole schema).schema = schema := rfl

@[simp] theorem schema_within (index : Nat) (segments : List String) (part : Part) :
    (part.within index segments).schema = part.schema := rfl

@[simp] theorem pathFrom_within (path : String) (index : Nat) (segments : List String)
    (part : Part) :
    (part.within index segments).pathFrom path = part.pathFrom (segments.foldl childPath path) :=
  List.foldl_append

end Part

/-- The segments of the path to a branch, of which the number counts only those that are not just
`null`. There are none if it is the only one of these. -/
def branchSegments (count number : Nat) : List String :=
  if count = 1 then [] else ["oneOf[" ++ toString number ++ "]"]

mutual

/-- The parts of a value that are mapped besides the whole. Of an object only the first property is,
and only if it is a dictionary. -/
def innerParts : Schema → List Part
  | ⟨.object (⟨name, first⟩ :: rest) _, _⟩ =>
    if isDictionary ⟨name, first⟩ rest then
      (.whole first :: first.innerParts).map (.within 0 [name])
    else []
  | ⟨.record value, _⟩ =>
    (.whole value :: value.innerParts).map (.within 0 ["additionalProperties"])
  | ⟨.array (some items), _⟩ => (.whole items :: items.innerParts).map (.within 0 ["items"])
  | ⟨.oneOf branches _, _⟩ => branchParts (branches.countP (!isNull ·)) 0 0 branches
  | ⟨.object [] _, _⟩ | ⟨.string _, _⟩ | ⟨.number _, _⟩ | ⟨.boolean, _⟩ | ⟨.null, _⟩
  | ⟨.array none, _⟩ | ⟨.ref _, _⟩ => []

/-- The same for the branches of a union that are not just `null`: `index` is the place of the first
among all branches, `number` its place among these. -/
def branchParts (count index number : Nat) : List Schema → List Part
  | [] => []
  | branch :: branches =>
    if isNull branch then branchParts count (index + 1) number branches
    else
      (.whole branch :: branch.innerParts).map (.within index (branchSegments count number)) ++
        branchParts count (index + 1) (number + 1) branches

end

/-- The parts of a value that are mapped, the whole first. -/
def mappedParts (schema : Schema) : List Part := .whole schema :: schema.innerParts

section Kinds

variable {metadata : Metadata}

theorem mappedParts_dictionary {name : String} {first : Schema} {rest : List (Property Schema)}
    {required : NameSet} (uniform : isDictionary ⟨name, first⟩ rest) :
    (mk (.object (⟨name, first⟩ :: rest) required) metadata).mappedParts =
      .whole ⟨.object (⟨name, first⟩ :: rest) required, metadata⟩ ::
        first.mappedParts.map (.within 0 [name]) := by
  rw [mappedParts, innerParts, if_pos uniform, mappedParts]

theorem mappedParts_literalObject {name : String} {first : Schema} {rest : List (Property Schema)}
    {required : NameSet} (mixed : ¬ isDictionary ⟨name, first⟩ rest) :
    (mk (.object (⟨name, first⟩ :: rest) required) metadata).mappedParts =
      [.whole ⟨.object (⟨name, first⟩ :: rest) required, metadata⟩] := by
  rw [mappedParts, innerParts, if_neg mixed]

theorem mappedParts_record {value : Schema} :
    (mk (.record value) metadata).mappedParts =
      .whole ⟨.record value, metadata⟩ ::
        value.mappedParts.map (.within 0 ["additionalProperties"]) := by
  rw [mappedParts, innerParts, mappedParts]

theorem mappedParts_array {items : Schema} :
    (mk (.array (some items)) metadata).mappedParts =
      .whole ⟨.array (some items), metadata⟩ :: items.mappedParts.map (.within 0 ["items"]) := by
  rw [mappedParts, innerParts, mappedParts]

theorem mappedParts_oneOf {branches : List Schema} {discriminator : Option String} :
    (mk (.oneOf branches discriminator) metadata).mappedParts =
      .whole ⟨.oneOf branches discriminator, metadata⟩ ::
        branchParts (branches.countP (!isNull ·)) 0 0 branches := by
  rw [mappedParts, innerParts]

variable {count index number : Nat} {branch : Schema} {branches : List Schema}

theorem branchParts_null (null : isNull branch) :
    branchParts count index number (branch :: branches) =
      branchParts count (index + 1) number branches := by
  rw [branchParts, if_pos null]

theorem branchParts_cons (notNull : ¬ isNull branch) :
    branchParts count index number (branch :: branches) =
      branch.mappedParts.map (.within index (branchSegments count number)) ++
        branchParts count (index + 1) (number + 1) branches := by
  rw [branchParts, if_neg notNull, mappedParts]

end Kinds

/-- The parts of some properties that are mapped. -/
def propertyParts (index : Nat) : List (Property Schema) → List Part
  | [] => []
  | property :: rest =>
    property.schema.mappedParts.map (.within index [property.name]) ++
      propertyParts (index + 1) rest

/-- The parts of a whole schema that are mapped. Here an object is expanded. -/
def rootParts (schema : Schema) : List Part :=
  match schema.kind with
  | .object properties _ => propertyParts 0 properties
  | _ => schema.mappedParts

/-- What is reported of a value that no validator expresses. -/
def degradation? (schema : Schema) : Option String :=
  match schema.kind with
  | .object (first :: rest) _ =>
    if isDictionary first rest then none else some "nested object literal"
  | .array none => some "array without items"
  | _ => none

end Schema

namespace Mapping

open Schema (Part)

variable {scope : Scope} {α β : Type}

/-- The schema that a reference is to if it closes a cycle. -/
def Scope.closing? (scope : Scope) (schema : Schema) : Option String :=
  schema.refTarget?.filter scope.closes

/-- What is reported of the value at a path. -/
def Scope.note? (scope : Scope) (path : String) (schema : Schema) : Option Diagnostic :=
  (schema.degradation?.map fun shape => .shape ⟨scope.owner, path, shape⟩).or
    ((scope.closing? schema).map fun target => .recursion scope.owner target)

/-- What is reported of some parts of the value at a path. -/
def Scope.notes (scope : Scope) (path : String) (parts : List Part) : List Diagnostic :=
  parts.filterMap fun part => scope.note? (part.pathFrom path) part.schema

section Notes

variable {path : String} {parts more : List Part}

theorem notes_append :
    scope.notes path (parts ++ more) = scope.notes path parts ++ scope.notes path more :=
  List.filterMap_append

theorem notes_within {index : Nat} {segments : List String} :
    scope.notes path (parts.map (.within index segments)) =
      scope.notes (segments.foldl childPath path) parts := by
  unfold Scope.notes
  rw [List.filterMap_map]
  simp only [Function.comp_def, Part.pathFrom_within, Part.schema_within]

theorem notes_cons_of_silent {part : Part}
    (silent : scope.note? (part.pathFrom path) part.schema = none) :
    scope.notes path (part :: parts) = scope.notes path parts :=
  List.filterMap_cons_none silent

theorem notes_cons_of_note {part : Part} {note : Diagnostic}
    (noted : scope.note? (part.pathFrom path) part.schema = some note) :
    scope.notes path (part :: parts) = note :: scope.notes path parts :=
  List.filterMap_cons_some noted

/-- A value of which nothing is reported only passes on what is reported of its parts. -/
theorem notes_whole_cons {schema : Schema} (silent : scope.note? path schema = none) :
    scope.notes path (.whole schema :: parts) = scope.notes path parts :=
  notes_cons_of_silent silent

theorem notes_whole_of_note {schema : Schema} {note : Diagnostic}
    (noted : scope.note? path schema = some note) :
    scope.notes path (.whole schema :: parts) = note :: scope.notes path parts :=
  notes_cons_of_note noted

theorem notes_ref {target : String} {metadata : Schema.Metadata} :
    scope.notes path (Schema.mk (.ref target) metadata).mappedParts =
      ([target].filter scope.closes).map (.recursion scope.owner ·) := by
  have note : scope.note? path ⟨.ref target, metadata⟩ =
      if scope.closes target then some (.recursion scope.owner target) else none := by
    by_cases closes : scope.closes target <;>
      simp [Scope.note?, Schema.degradation?, Scope.closing?, Schema.refTarget?, Option.filter,
        closes]
  rw [Schema.mappedParts, Schema.innerParts]
  by_cases closes : scope.closes target
  · rw [if_pos closes] at note
    rw [notes_whole_of_note note, List.filter_cons_of_pos closes]
    rfl
  · rw [if_neg closes] at note
    rw [notes_whole_cons note, List.filter_cons_of_neg closes]
    rfl

end Notes

/-- What a step reports from a state: all of some diagnostics if it succeeds, and those up to one of
them if it fails. -/
structure Reports (step : MapM α) (before : State) (reports : List Diagnostic) : Prop where
  yields : ∀ {value after}, Yields step before value after →
    after.diagnostics = before.diagnostics ++ reports
  fails : ∀ {e}, Fails step before e → ∃ made, made <+: reports ∧
    (notesAfter step before).diagnostics = before.diagnostics ++ made

namespace Reports

variable {step : MapM α} {before : State} {reports more : List Diagnostic}

theorem of_yields {value : α} {after : State} (run : Yields step before value after)
    (same : after.diagnostics = before.diagnostics ++ reports) : Reports step before reports where
  yields run' := by
    have both := run.symm.trans run'
    rw [← (Prod.mk.inj both).2, same]
  fails failed := absurd failed (run.not_fails _)

theorem pure (a : α) : Reports (Pure.pure a : MapM α) before [] :=
  of_yields (yields_pure.2 ⟨rfl, rfl⟩) (List.append_nil _).symm

/-- What a sequence of steps reports. -/
theorem bind {next : α → MapM β} (first : Reports step before reports)
    (second : ∀ a middle, Yields step before a middle → Reports (next a) middle more) :
    Reports (step >>= next) before (reports ++ more) where
  yields run := by
    obtain ⟨a, middle, run, rest⟩ := yields_bind.1 run
    rw [(second a middle run).yields rest, first.yields run, List.append_assoc]
  fails failed := by
    rcases fails_bind.1 failed with failed | ⟨a, middle, run, failed⟩
    · obtain ⟨made, ahead, same⟩ := first.fails failed
      rw [notesAfter_bind_of_fails failed]
      exact ⟨made, ahead.trans (List.prefix_append _ _), same⟩
    · obtain ⟨made, ahead, same⟩ := (second a middle run).fails failed
      rw [notesAfter_bind_of_yields run, same, first.yields run, List.append_assoc]
      exact ⟨reports ++ made, (List.prefix_append_right_inj _).2 ahead, rfl⟩

theorem bind_pure (first : Reports step before reports) (f : α → β) :
    Reports (step >>= fun a => Pure.pure (f a)) before reports := by
  have both : Reports (step >>= fun a => Pure.pure (f a)) before (reports ++ []) :=
    first.bind fun a _ _ => pure (f a)
  rwa [List.append_nil] at both

end Reports

theorem diagnostics_declare {before : State} {declaration : Model.EnumDeclaration} :
    (before.declare declaration).diagnostics = before.diagnostics := by
  unfold State.declare
  split <;> rfl

theorem diagnostics_visit {before : State} {target : String} :
    (before.visit scope target).diagnostics =
      before.diagnostics ++
        ([target].filter scope.closes).map (.recursion scope.owner ·) := by
  have refer : (before.refer scope.owner target).diagnostics = before.diagnostics := by
    unfold State.refer
    split <;> rfl
  unfold State.visit
  by_cases closes : scope.closes target
  · simp [closes, State.close, refer]
  · simp [closes, refer]

theorem reports_mapString {facets : Schema.StringFacets} {hint : String} {before : State} :
    Reports (mapString scope facets hint) before [] where
  yields run := by
    rw [List.append_nil]
    rcases yields_mapString run with ⟨-, rfl, -⟩ | ⟨_, -, rfl, -⟩ | ⟨-, rfl, -⟩
    · rfl
    · rfl
    · exact diagnostics_declare
  fails failed := absurd failed not_fails_mapString

theorem reports_noteUnsupported {path shape : String} {before : State} :
    Reports (noteUnsupported scope path shape) before [.shape ⟨scope.owner, path, shape⟩] :=
  .of_yields (yields_noteUnsupported (u := ()).2 rfl) rfl

theorem reports_mapReference {target : String} {before : State} :
    Reports (mapReference scope target) before
      (([target].filter scope.closes).map (.recursion scope.owner ·)) := by
  cases registered : scope.registry.get? target with
  | none =>
    refine ⟨fun run => ?_, fun _ => ⟨[], List.nil_prefix, ?_⟩⟩
    · obtain ⟨_, found, -⟩ := yields_mapReference.1 run
      rw [registered] at found
      cases found
    · unfold notesAfter mapReference
      rw [registered]
      exact (List.append_nil _).symm
  | some schema =>
    exact .of_yields (yields_mapReference.2 ⟨schema, registered, rfl, rfl⟩) diagnostics_visit

mutual

/-- A mapping reports what there is to be noted of the parts that it comes to. -/
theorem reports_mapValue : ∀ (schema : Schema) {hint path : String} {before : State},
    Reports (mapValue scope schema hint path) before (scope.notes path schema.mappedParts)
  | ⟨.string facets, metadata⟩, hint, path, before => by
    rw [mapValue]
    exact reports_mapString.bind_pure _
  | ⟨.number _, _⟩, _, _, _ => by
    rw [mapValue]
    exact .pure _
  | ⟨.boolean, _⟩, _, _, _ => by
    rw [mapValue]
    exact .pure _
  | ⟨.null, _⟩, _, _, _ => by
    rw [mapValue]
    exact .pure _
  | ⟨.object [] _, _⟩, _, _, _ => by
    rw [mapValue]
    exact .pure _
  | ⟨.object (⟨name, first⟩ :: rest) required, metadata⟩, hint, path, before => by
    rw [mapValue]
    by_cases uniform : isDictionary ⟨name, first⟩ rest
    · have silent : scope.note? path
          ⟨.object (⟨name, first⟩ :: rest) required, metadata⟩ = none := by
        simp [Scope.note?, Schema.degradation?, uniform, Scope.closing?, Schema.refTarget?]
      rw [if_pos uniform, Schema.mappedParts_dictionary uniform, notes_whole_cons silent,
        notes_within]
      exact (reports_mapValue first).bind_pure _
    · have noted : scope.note? path
          ⟨.object (⟨name, first⟩ :: rest) required, metadata⟩ =
            some (.shape ⟨scope.owner, path, "nested object literal"⟩) := by
        simp [Scope.note?, Schema.degradation?, uniform]
      rw [if_neg uniform, Schema.mappedParts_literalObject uniform, notes_whole_of_note noted]
      exact reports_noteUnsupported.bind_pure _
  | ⟨.record value, _⟩, hint, path, before => by
    rw [mapValue, Schema.mappedParts_record, notes_whole_cons rfl, notes_within]
    exact (reports_mapValue value).bind_pure _
  | ⟨.array none, _⟩, _, _, _ => by
    rw [mapValue]
    exact reports_noteUnsupported.bind_pure _
  | ⟨.array (some items), _⟩, hint, path, before => by
    rw [mapValue, Schema.mappedParts_array, notes_whole_cons rfl, notes_within]
    exact (reports_mapValue items).bind_pure _
  | ⟨.oneOf branches _, _⟩, hint, path, before => by
    rw [mapValue, Schema.mappedParts_oneOf, notes_whole_cons rfl]
    exact (reports_mapBranches branches).bind_pure _
  | ⟨.ref target, metadata⟩, hint, path, before => by
    rw [mapValue, notes_ref]
    exact reports_mapReference.bind_pure _

/-- The same for the branches of a union. -/
theorem reports_mapBranches : ∀ (branches : List Schema) {hint path : String}
    {count index number : Nat} {before : State},
    Reports (mapBranches scope hint path count number branches) before
      (scope.notes path (Schema.branchParts count index number branches))
  | [], _, _, _, _, _, _ => by
    rw [mapBranches]
    exact .pure _
  | branch :: branches, hint, path, count, index, number, before => by
    rw [mapBranches]
    by_cases null : isNull branch
    · rw [if_pos null, Schema.branchParts_null null]
      exact reports_mapBranches branches
    · have branchPath_eq :
          (Schema.branchSegments count number).foldl childPath path = branchPath path count number := by
        unfold Schema.branchSegments branchPath
        split <;> rfl
      rw [if_neg null, Schema.branchParts_cons null, notes_append, notes_within, branchPath_eq]
      exact (reports_mapValue branch).bind fun value middle _ =>
        (reports_mapBranches branches).bind_pure _

end

end Mapping

end ZodModules
