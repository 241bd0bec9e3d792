import ZodModules.Proofs.Generation.CycleGuards
import ZodModules.Proofs.Generation.Diagnostics
import ZodModules.Proofs.Generation.Failures

/-!
# Placeholders are reported

A value accepts anything only where something is reported of it or where an object without
properties stands. So in a strict run that succeeds nothing else than these objects and references
that close cycles accepts anything.
-/

namespace ZodModules

open Mapping (Scope State Yields mapValue openObjects)
open Schema (Part)

/-- The number of parts that are references which close a cycle. -/
def Registry.cycleReferences (registry : Registry) (name : String) (parts : List Part) : Nat :=
  parts.countP fun part =>
    part.schema.refTarget?.any fun target => registry.ClosesCycle name target

/-- A strict run that succeeds reports no shape that no validator expresses. -/
theorem Report.not_mem_of_strict {report : Report} (ok : report.outcome true = .ok ())
    {e : UnsupportedShape} {schema : String} : .shape e ∉ report.diagnostics schema := by
  intro member
  have silent := (outcome_eq_ok_iff.1 ok).2.2 rfl
  have listed : e ∈ report.unsupportedShapes :=
    List.mem_filterMap.2 ⟨.shape e, mem_all_iff.2 ⟨schema, member⟩, rfl⟩
  rw [silent] at listed
  cases listed

namespace Generation

variable {config : Config} {registry : Registry} {name : String}

/-- If no shape is reported, then only references that close cycles are. -/
theorem length_notes_of_expressed {parts : List Part}
    (expressed : ∀ e, .shape e ∉
      (scopeOf config name registry (.ofRegistry registry)).notes "" parts) :
    ((scopeOf config name registry (.ofRegistry registry)).notes "" parts).length =
      registry.cycleReferences name parts := by
  unfold Scope.notes Registry.cycleReferences at *
  rw [List.length_filterMap_eq_countP]
  refine List.countP_congr fun part member => ?_
  cases degraded : part.schema.degradation? with
  | some shape =>
    refine absurd (List.mem_filterMap.2 ⟨part, member, ?_⟩) (expressed ⟨name, part.pathFrom "", shape⟩)
    simp [Scope.note?, degraded, scopeOf]
  | none =>
    simp only [Scope.note?, degraded, Option.map_none, Option.none_or, Option.isSome_map,
      Scope.closing?, Option.isSome_filter, Option.any_eq_true, closes_scopeOf, decide_eq_true_iff]

/-- What is noted while a schema is generated is reported in the end. -/
theorem mem_report_of_generate {schema : Schema} {generated : Generated} {diagnostic : Diagnostic}
    (usage : Usage) (registered : registry.get? name = some schema)
    (resolves : registry.Resolves name)
    (ok : generate config name schema registry (.ofRegistry registry) = .ok generated)
    (noted : diagnostic ∈ generated.diagnostics) :
    diagnostic ∈ (run config registry usage).report.diagnostics name := by
  have contains := Registry.contains_of_get? registered
  rw [report_run, Report.mem_diagnostics_recordCollisions, diagnostics_drafts, registered]
  left
  show diagnostic ∈ (notesFor _ registry _ name schema).foldl Report.added []
  rw [notesFor_of_generate contains resolves ok, Report.mem_foldl_added]
  exact Or.inr noted

/-- Nothing accepts anything unnoticed: a mapping that succeeds adds one diagnostic for each
placeholder in its expression, but for those of objects without properties. So the expression that
is generated for a schema in a strict run that succeeds has placeholders only for these objects and
for references that close a cycle. -/
theorem placeholders_are_reported :
    (∀ (scope : Scope) (schema : Schema) (hint path : String) (before after : State)
      (value : Mapping.Mapped), Yields (mapValue scope schema hint path) before value after →
      ∃ reports, after.diagnostics = before.diagnostics ++ reports ∧
        value.validator.placeholders = reports.length + openObjects schema.mappedParts) ∧
    ∀ (config : Config) (registry : Registry) (usage : Usage),
      (run config registry usage).report.outcome true = .ok () →
      ∀ name draft, (drafts config registry).1.get? name = some draft →
        ∃ schema expression, registry.get? name = some schema ∧
          expression? config name schema registry (.ofRegistry registry) = some expression ∧
          draft.validator = expression.text config.indent.text ∧
          expression.placeholders =
            registry.cycleReferences name schema.rootParts + openObjects schema.rootParts := by
  constructor
  · intro scope schema hint path before after value run
    refine ⟨_, (Mapping.reports_mapValue schema).yields run, ?_⟩
    rw [Mapping.placeholders_rules.hold schema run, Mapping.blanks_eq]
  · intro config registry usage success name draft found
    obtain ⟨schema, diagnostics, registered, resolves, ok⟩ := get?_drafts_iff.1 found
    obtain ⟨root, state, run, same⟩ := generate_eq_ok_iff.1 ok
    cases same
    refine ⟨schema, _, registered, expression?_of_yields run, rfl, ?_⟩
    have noted := (reports_generateRoot schema).yields run
    rw [placeholders_generateRoot run, Mapping.blanks_eq, length_notes_of_expressed]
    intro e member
    have recorded : .shape e ∈ state.diagnostics := by
      rw [noted]
      exact List.mem_append_right _ member
    exact Report.not_mem_of_strict success
      (mem_report_of_generate usage registered resolves ok recorded)

section Outline

/-- A section has parts, which are sections, and settings of which nothing is said. -/
def outlineSection : Schema :=
  .ofKind (.object
    [⟨"parts", .ofKind (.array (some (.ofKind (.ref "Section"))))⟩,
      ⟨"settings", .ofKind (.object [] ∅)⟩]
    (.ofList ["parts", "settings"]))

/-- The sections of an outline. -/
def outline : Registry := .ofList [("Section", outlineSection)]

theorem closures_outline :
    ClosureIndex.ofRegistry outline = ⟨NameMap.ofList [("Section", .ok (.ofList ["Section"]))]⟩ := by
  have own : outline.closure "Section" = .ok (.ofList ["Section"]) := by
    show outline.search "Section" ["Section"] ∅ [("Section", "Section")] = _
    rw [Registry.search, if_pos rfl, Registry.search]
    exact congrArg Except.ok (by decide +kernel)
  show (⟨⟨[("Section", outline.closure "Section")], _⟩⟩ : ClosureIndex) = _
  simp only [own]
  rfl

theorem strict_outline : (run {} outline ∅).report.outcome true = .ok () := by
  have reported : (run {} outline ∅).report.all = [.recursion "Section" "Section"] := by
    rw [report_run]
    unfold drafts
    rw [closures_outline]
    decide +kernel
  rw [Report.outcome_eq_ok_iff]
  simp [Report.resolutionErrors, Report.symbolCollisions, Report.unsupportedShapes, reported]

/-- An array without items is reported and accepts any items. A strict generation of outlines
succeeds with two placeholders: for the parts, which are sections again, and for the settings. -/
theorem placeholders_outline :
    (∃ value after, Yields (mapValue (scopeOf {} "Section" outline ∅) (.ofKind (.array none)) ""
        "tags") ∅ value after ∧
      after.diagnostics = [.shape ⟨"Section", "tags", "array without items"⟩] ∧
      value.validator.placeholders = 1) ∧
    (run {} outline ∅).report.outcome true = .ok () ∧
    ∃ draft, (drafts {} outline).1.get? "Section" = some draft ∧
      ∃ expression : Validator, draft.validator = expression.text "  " ∧
        expression.placeholders = 2 := by
  refine ⟨⟨_, _, rfl, rfl, ?_⟩, strict_outline, ?_⟩
  · obtain ⟨reports, noted, counted⟩ := placeholders_are_reported.1
      (scopeOf {} "Section" outline ∅) (.ofKind (.array none)) "" "tags" ∅ _ _ rfl
    rw [counted, ← List.nil_append reports]
    exact congrArg (·.length + 0) noted.symm
  · obtain ⟨draft, found⟩ : ∃ draft, (drafts {} outline).1.get? "Section" = some draft := by
      refine Option.isSome_iff_exists.1 ?_
      unfold drafts
      rw [closures_outline]
      decide +kernel
    obtain ⟨schema, expression, registered, -, text, counted⟩ :=
      placeholders_are_reported.2 {} outline ∅ strict_outline "Section" draft found
    obtain rfl : outlineSection = schema := Option.some.inj registered
    refine ⟨draft, found, expression, text, counted.trans ?_⟩
    have closes : outline.ClosesCycle "Section" "Section" := Or.inl rfl
    show List.countP _ [_, _, _] + List.countP _ [_, _, _] = 2
    simp [Schema.Part.within, Schema.Part.whole, Schema.refTarget?, Schema.isOpenObject, closes,
      Schema.ofKind]

end Outline

end Generation

end ZodModules
