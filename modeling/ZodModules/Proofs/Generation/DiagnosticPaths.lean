import ZodModules.Proofs.Expr.DiagnosticPaths
import ZodModules.Proofs.Generation.Diagnostics
import Mathlib.Data.List.Forall2

/-!
# Paths of the shapes that are reported

The path of a shape that is reported leads to the part it is reported of if the branches of unions
are numbered without those that are just `null`. With the numbers that the branches have as declared
it does so only where no such branch stands before.
-/

namespace ZodModules

open Mapping (Reports Scope State)
open Schema (Leads Part declaredNumber nullsBefore pathSegments valueNumber)

/-- The shape that is reported not to be expressed. -/
def Diagnostic.shape? : Diagnostic → Option UnsupportedShape
  | shape e => some e
  | _ => none

namespace Schema

/-- The parts that are mapped of which a shape is reported. -/
def degradedParts (schema : Schema) : List Part :=
  schema.rootParts.filter (·.schema.degradation?.isSome)

/-- The names of the properties of an object have no points. -/
def HasPlainNames (schema : Schema) : Prop :=
  ∀ properties required, schema.kind = .object properties required →
    ∀ property ∈ properties, '.' ∉ property.name.toList

/-- The segments of each part of a whole schema lead to it. -/
theorem leads_of_mem_rootParts {schema : Schema} {part : Part} (member : part ∈ schema.rootParts) :
    Leads valueNumber schema part.segments part.position part.schema := by
  rcases Generation.object_or_value schema with ⟨properties, required, metadata, rfl⟩ | value
  · obtain ⟨index, property, found, inner, inside, rfl⟩ := exists_of_mem_propertyParts member
    rw [Nat.zero_add]
    exact .property found (leads_rules.hold property.schema inside)
  · rw [Generation.rootParts_of_value value] at member
    exact leads_rules.hold schema member

theorem plain_of_mem_degradedParts {schema : Schema} (plain : schema.HasPlainNames) {part : Part}
    (member : part ∈ schema.degradedParts) : ∀ segment ∈ part.segments, '.' ∉ segment.toList := by
  obtain ⟨member, degraded⟩ := List.mem_filter.1 member
  rcases Generation.object_or_value schema with ⟨properties, required, metadata, rfl⟩ | value
  · obtain ⟨index, property, found, inner, inside, rfl⟩ := exists_of_mem_propertyParts member
    have own := plain properties required rfl property (List.mem_of_getElem? found)
    exact List.forall_mem_cons.2 ⟨own, plain_rules.hold property.schema inside degraded⟩
  · rw [Generation.rootParts_of_value value] at member
    exact plain_rules.hold schema member degraded

end Schema

namespace Generation

variable {config : Config} {name : String} {schema : Schema} {registry : Registry}
  {closures : ClosureIndex}

/-- The shapes that are noted while a schema is generated, whether that succeeds or not. -/
def recordedShapes (config : Config) (name : String) (schema : Schema) (registry : Registry)
    (closures : ClosureIndex) : List UnsupportedShape :=
  (Mapping.notesAfter
    (generateRoot (scopeOf config name registry closures) config.indent.text schema)
      ∅).diagnostics.filterMap Diagnostic.shape?

/-- A shape is reported of a part: at its path, and as what it is. -/
structure Records (e : UnsupportedShape) (part : Part) : Prop where
  path : e.path = part.pathFrom ""
  shape : part.schema.degradation? = some e.shape

/-- One shape is reported of each part that has no other expression. -/
theorem records_notes (scope : Scope) (parts : List Part) :
    List.Forall₂ Records ((scope.notes "" parts).filterMap Diagnostic.shape?)
      (parts.filter (·.schema.degradation?.isSome)) := by
  induction parts with
  | nil => exact .nil
  | cons part rest ih =>
    cases degraded : part.schema.degradation? with
    | some shape =>
      have noted : scope.note? (part.pathFrom "") part.schema =
          some (.shape ⟨scope.owner, part.pathFrom "", shape⟩) := by
        simp [Scope.note?, degraded]
      rw [Mapping.notes_cons_of_note noted, List.filter_cons_of_pos (by simp [degraded])]
      exact .cons ⟨rfl, degraded⟩ ih
    | none =>
      rw [List.filter_cons_of_neg (by simp [degraded])]
      cases closing : scope.closing? part.schema with
      | none =>
        rw [Mapping.notes_cons_of_silent (by simp [Scope.note?, degraded, closing])]
        exact ih
      | some target =>
        have noted : scope.note? (part.pathFrom "") part.schema =
            some (.recursion scope.owner target) := by
          simp [Scope.note?, degraded, closing]
        rw [Mapping.notes_cons_of_note noted]
        exact ih

/-- What is noted by the end is what there is to be noted, or the start of it. -/
theorem prefix_of_reports {α : Type} {step : Mapping.MapM α} {reports : List Diagnostic}
    (all : Reports step ∅ reports) : (Mapping.notesAfter step ∅).diagnostics <+: reports := by
  rcases Mapping.yields_or_fails step ∅ with ⟨value, after, run⟩ | ⟨e, failed⟩
  · rw [run.notesAfter_eq, all.yields run]
    exact List.prefix_refl _
  · obtain ⟨made, ahead, same⟩ := all.fails failed
    rw [same]
    exact ahead

theorem records_recordedShapes (config : Config) (name : String) (schema : Schema)
    (registry : Registry) (closures : ClosureIndex) :
    List.Forall₂ Records (recordedShapes config name schema registry closures)
      (schema.degradedParts.take (recordedShapes config name schema registry closures).length) := by
  have all := records_notes (scopeOf config name registry closures) schema.rootParts
  have reports : Reports
      (generateRoot (scopeOf config name registry closures) config.indent.text schema) ∅ _ :=
    reports_generateRoot schema
  have ahead : recordedShapes config name schema registry closures <+:
      ((scopeOf config name registry closures).notes "" schema.rootParts).filterMap
        Diagnostic.shape? := (prefix_of_reports reports).filterMap Diagnostic.shape?
  have start := List.forall₂_take (recordedShapes config name schema registry closures).length all
  rwa [← List.prefix_iff_eq_take.1 ahead] at start

/-- If a schema is generated, then a shape is noted of each part that has no other expression. -/
theorem recordedShapes_of_generate {generated : Generated}
    (ok : generate config name schema registry closures = .ok generated) :
    generated.diagnostics.filterMap Diagnostic.shape? =
        recordedShapes config name schema registry closures ∧
      schema.degradedParts.length =
        (recordedShapes config name schema registry closures).length := by
  obtain ⟨root, state, run, rfl⟩ := generate_eq_ok_iff.1 ok
  have noted := (reports_generateRoot schema).yields run
  have all := records_notes (scopeOf config name registry closures) schema.rootParts
  unfold recordedShapes
  rw [run.notesAfter_eq]
  refine ⟨rfl, ?_⟩
  rw [noted]
  exact all.length_eq.symm

/-- Where the path of a shape leads that is reported of a part. -/
structure Locates (schema : Schema) (e : UnsupportedShape) (part : Part) : Prop where
  shape : part.schema.degradation? = some e.shape
  /-- With the numbers of the branches among those that are not just `null`. -/
  values : Leads valueNumber schema (pathSegments e.path) part.position part.schema ↔
    part.segments.head? ≠ some ""
  /-- With the numbers of the branches as declared. -/
  declared : Leads declaredNumber schema (pathSegments e.path) part.position part.schema ↔
    nullsBefore schema part.position = 0 ∧ part.segments.head? ≠ some ""

theorem locates_of_records (plain : schema.HasPlainNames) {e : UnsupportedShape} {part : Part}
    (member : part ∈ schema.degradedParts) (records : Records e part) :
    Locates schema e part := by
  have walk := Schema.leads_of_mem_rootParts (List.mem_of_mem_filter member)
  have points := Schema.plain_of_mem_degradedParts plain member
  refine ⟨records.shape, ?_, ?_⟩
  · rw [records.path, Schema.leads_pathFrom_iff walk points]
    exact and_iff_right walk
  · rw [records.path, Schema.leads_pathFrom_iff walk points, walk.declared_iff]

/-- Where the paths of reported shapes lead: the shapes that are noted while a schema is generated are
those of the parts that have no other expression, in order, and all of these if that succeeds. The
path of each leads to its part, with the numbers of branches among those that are not just `null`,
unless it begins with a property that has an empty name; with the numbers as declared it takes besides
that no branch that is just `null` stands before the branches on the way. -/
theorem paths_locate_shapes (config : Config) (name : String) (schema : Schema)
    (registry : Registry) (closures : ClosureIndex) (plain : schema.HasPlainNames) :
    List.Forall₂ (Locates schema) (recordedShapes config name schema registry closures)
        (schema.degradedParts.take (recordedShapes config name schema registry closures).length) ∧
      ∀ generated, generate config name schema registry closures = .ok generated →
        generated.diagnostics.filterMap Diagnostic.shape? =
            recordedShapes config name schema registry closures ∧
          schema.degradedParts.length =
            (recordedShapes config name schema registry closures).length := by
  refine ⟨?_, fun generated ok => recordedShapes_of_generate ok⟩
  have records := records_recordedShapes config name schema registry closures
  rw [List.forall₂_iff_zip] at records ⊢
  refine ⟨records.1, fun {e part} paired => ?_⟩
  have member := List.mem_of_mem_take (List.of_mem_zip paired).2
  exact locates_of_records plain member (records.2 paired)

section Reading

/-- The value of a reading may be `null`, a text or an array of anything. -/
def reading : Schema :=
  .ofKind (.object
    [⟨"value", .ofKind (.oneOf [.ofKind .null, .ofKind (.string {}), .ofKind (.array none)] none)⟩]
    ∅)

/-- What is reported of a reading. -/
def readingShape : UnsupportedShape := ⟨"Reading", "value.oneOf[1]", "array without items"⟩

theorem recordedShapes_reading :
    recordedShapes {} "Reading" reading ∅ ∅ = [readingShape] := by
  decide +kernel

theorem pathSegments_reading : pathSegments readingShape.path = ["value", "oneOf[1]"] := by
  decide +kernel

/-- The path of the array leads to it with the numbers among the branches besides `null`, and to the
text with those of the branches as declared. -/
theorem leads_reading :
    reading.HasPlainNames ∧
      Leads valueNumber reading (pathSegments readingShape.path) [0, 2] (.ofKind (.array none)) ∧
      ¬ Leads declaredNumber reading (pathSegments readingShape.path) [0, 2]
        (.ofKind (.array none)) := by
  have plain : reading.HasPlainNames := by
    intro properties required same property member
    cases same
    obtain rfl := List.mem_singleton.1 member
    decide
  have located := (paths_locate_shapes {} "Reading" reading ∅ ∅ plain).1
  rw [recordedShapes_reading] at located
  obtain ⟨⟨-, values, declared⟩, -⟩ := List.forall₂_cons.1 located
  refine ⟨plain, values.2 (by decide +kernel), fun walk => ?_⟩
  have nulls := (declared.1 walk).1
  exact absurd nulls (by decide +kernel)

/-- With the numbers of the branches as declared, the path of what is reported of a reading leads to
nothing of that shape. -/
theorem not_leads_reading :
    recordedShapes {} "Reading" reading ∅ ∅ = [readingShape] ∧
      ¬ ∃ position target,
        Leads declaredNumber reading (pathSegments readingShape.path) position target ∧
          target.degradation? = some readingShape.shape := by
  refine ⟨recordedShapes_reading, ?_⟩
  rw [pathSegments_reading]
  rintro ⟨position, target, walk, degraded⟩
  generalize same : ["value", "oneOf[1]"] = segments at walk
  cases walk with
  | here => cases same
  | property found inner =>
    obtain rfl := List.mem_singleton.1 (List.mem_of_getElem? found)
    obtain ⟨-, rest⟩ := List.cons.inj same
    cases inner with
    | here => cases rest
    | @branch _ _ _ index branch _ _ _ several found notNull inner =>
      obtain ⟨first, last⟩ := List.cons.inj rest
      obtain rfl : 1 = index := Schema.segment_injective first
      -- The branch of this number is the text.
      cases found
      cases inner with
      | here => cases degraded
    | only single => exact absurd single (by decide)

end Reading

end Generation

end ZodModules
