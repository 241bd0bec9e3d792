import ZodModules.Proofs.Data.Listings
import ZodModules.Proofs.Generation.Modules
import ZodModules.Proofs.Model.Claiming

/-!
# What a run reports

The report of a run schema by schema: what the generation of a schema notes is recorded under that
schema and under no other, and making the exported names distinct adds collisions only. References
that lead nowhere are listed in order and without repetition.
-/

namespace ZodModules

/-- The reference that is reported to lead nowhere. -/
def Diagnostic.resolution? : Diagnostic → Option ResolutionError
  | resolution e => some e
  | _ => none

namespace ResolutionError

/-- An error is listed before another one: by schema, then by reference. -/
def Before (a b : ResolutionError) : Prop :=
  a.schema < b.schema ∨ a.schema = b.schema ∧ a.reference < b.reference

theorem eq_or_lt_of_not_lt {s t : String} (h : ¬ s < t) : s = t ∨ t < s := by
  by_cases same : s = t
  · exact Or.inl same
  · exact Or.inr (NameSet.lt_of_not_lt_of_ne h same)

theorem le_iff {a b : ResolutionError} : a.le b ↔ a.Before b ∨ a = b := by
  obtain ⟨schema, reference⟩ := a
  obtain ⟨schema', reference'⟩ := b
  simp only [le, Before, Bool.or_eq_true, Bool.and_eq_true, decide_eq_true_eq, beq_iff_eq,
    Bool.not_eq_true', decide_eq_false_iff_not, mk.injEq]
  constructor
  · rintro (before | ⟨same, notAfter⟩)
    · exact Or.inl (Or.inl before)
    · rcases eq_or_lt_of_not_lt notAfter with equal | before
      · exact Or.inr ⟨same, equal.symm⟩
      · exact Or.inl (Or.inr ⟨same, before⟩)
  · rintro ((before | ⟨same, before⟩) | ⟨same, equal⟩)
    · exact Or.inl before
    · exact Or.inr ⟨same, String.lt_asymm before⟩
    · exact Or.inr ⟨same, equal ▸ String.lt_irrefl _⟩

theorem before_or_eq_or_before (a b : ResolutionError) : a.Before b ∨ a = b ∨ b.Before a := by
  obtain ⟨schema, reference⟩ := a
  obtain ⟨schema', reference'⟩ := b
  by_cases before : schema < schema'
  · exact Or.inl (Or.inl before)
  · rcases eq_or_lt_of_not_lt before with rfl | after
    · by_cases before : reference < reference'
      · exact Or.inl (Or.inr ⟨rfl, before⟩)
      · rcases eq_or_lt_of_not_lt before with rfl | after
        · exact Or.inr (Or.inl rfl)
        · exact Or.inr (Or.inr (Or.inr ⟨rfl, after⟩))
    · exact Or.inr (Or.inr (Or.inl after))

theorem Before.trans {a b c : ResolutionError} (first : a.Before b) (second : b.Before c) :
    a.Before c := by
  rcases first with first | ⟨same, first⟩
  · rcases second with second | ⟨same', _⟩
    · exact Or.inl (String.lt_trans first second)
    · exact Or.inl (same' ▸ first)
  · rcases second with second | ⟨same', second⟩
    · exact Or.inl (same ▸ second)
    · exact Or.inr ⟨same.trans same', String.lt_trans first second⟩

theorem le_trans (a b c : ResolutionError) (first : a.le b) (second : b.le c) : a.le c := by
  rw [le_iff] at first second ⊢
  rcases first with first | rfl
  · rcases second with second | rfl
    · exact Or.inl (first.trans second)
    · exact Or.inl first
  · exact second

theorem le_total (a b : ResolutionError) : a.le b || b.le a := by
  rw [Bool.or_eq_true, le_iff, le_iff]
  rcases before_or_eq_or_before a b with before | same | after
  · exact Or.inl (Or.inl before)
  · exact Or.inl (Or.inr same)
  · exact Or.inr (Or.inl after)

end ResolutionError

namespace Report

variable {report : Report} {name : String}

/-- The references that are reported under a schema. -/
def resolutions (report : Report) (schema : String) : List ResolutionError :=
  (report.diagnostics schema).filterMap Diagnostic.resolution?

theorem resolutionErrors_eq (report : Report) :
    report.resolutionErrors = report.all.filterMap Diagnostic.resolution? := rfl

theorem mem_filterMap_resolution? {e : ResolutionError} {listed : List Diagnostic} :
    e ∈ listed.filterMap Diagnostic.resolution? ↔ .resolution e ∈ listed := by
  rw [List.mem_filterMap]
  constructor
  · rintro ⟨diagnostic, member, found⟩
    cases diagnostic with
    | resolution other =>
      cases found
      exact member
    | _ => cases found
  · intro member
    exact ⟨_, member, rfl⟩

theorem mem_resolutionErrors_iff {e : ResolutionError} :
    e ∈ report.resolutionErrors ↔ ∃ schema, e ∈ report.resolutions schema := by
  rw [resolutionErrors_eq, mem_filterMap_resolution?, mem_all_iff]
  unfold resolutions
  simp only [mem_filterMap_resolution?]

/-- The references that fail a run: all that are reported, in order and without repetition. -/
def unresolved (report : Report) : List ResolutionError :=
  (report.resolutionErrors.mergeSort ResolutionError.le).eraseDups

theorem mem_unresolved_iff {e : ResolutionError} :
    e ∈ report.unresolved ↔ ∃ schema, e ∈ report.resolutions schema := by
  unfold unresolved
  rw [List.mem_eraseDups, List.mem_mergeSort, mem_resolutionErrors_iff]

theorem before_unresolved (report : Report) :
    report.unresolved.Pairwise ResolutionError.Before := by
  have sorted : report.unresolved.Pairwise fun a b => a.le b :=
    (List.pairwise_mergeSort ResolutionError.le_trans ResolutionError.le_total _).sublist
      (Listing.eraseDups_sublist _)
  have distinct : report.unresolved.Nodup := Listing.nodup_eraseDups _
  refine sorted.imp₂ ?_ distinct
  intro a b le different
  exact (ResolutionError.le_iff.1 le).resolve_right different

/-- A run fails for unresolved references exactly if there are any, and then lists them. -/
theorem outcome_eq_resolution_iff {strict : Bool} {errors : List ResolutionError} :
    report.outcome strict = .error (.resolution errors) ↔
      report.unresolved ≠ [] ∧ errors = report.unresolved := by
  unfold outcome
  show (if !report.unresolved.isEmpty then _ else _) = _ ↔ _
  by_cases resolved : report.unresolved = []
  · rw [resolved]
    simp only [List.isEmpty_nil, Bool.not_true, Bool.false_eq_true, if_false, ne_eq, not_true,
      false_and, iff_false]
    split
    · simp
    · split <;> simp
  · have failing : (!report.unresolved.isEmpty) = true := by simpa using resolved
    rw [if_pos failing]
    simp only [Except.error.injEq, RunError.resolution.injEq, ne_eq, resolved, not_false_eq_true,
      true_and]
    exact eq_comm

theorem unresolved_eq_nil_iff : report.unresolved = [] ↔ report.resolutionErrors = [] := by
  simp only [List.eq_nil_iff_forall_not_mem, mem_unresolved_iff, mem_resolutionErrors_iff]

/-- A run fails for collisions exactly if there are any but no reference leads nowhere, and then
lists them. -/
theorem outcome_eq_symbolCollision_iff {strict : Bool} {errors : List SymbolCollision} :
    report.outcome strict = .error (.symbolCollision errors) ↔
      report.resolutionErrors = [] ∧ report.symbolCollisions ≠ [] ∧
        errors = report.symbolCollisions := by
  rw [← unresolved_eq_nil_iff]
  unfold outcome
  show (if !report.unresolved.isEmpty then _ else _) = _ ↔ _
  by_cases resolved : report.unresolved = []
  · rw [resolved]
    simp only [List.isEmpty_nil, Bool.not_true, Bool.false_eq_true, if_false, true_and]
    by_cases silent : report.symbolCollisions = []
    · rw [silent]
      simp only [List.isEmpty_nil, Bool.not_true, Bool.false_eq_true, if_false, ne_eq, not_true,
        false_and, iff_false]
      split <;> simp
    · have failing : (!report.symbolCollisions.isEmpty) = true := by simpa using silent
      rw [if_pos failing]
      simp only [Except.error.injEq, RunError.symbolCollision.injEq, ne_eq, silent,
        not_false_eq_true, true_and]
      exact eq_comm
  · have failing : (!report.unresolved.isEmpty) = true := by simpa using resolved
    rw [if_pos failing]
    simp [resolved]

/-- A run succeeds exactly if every reference leads somewhere, no two schemas export one symbol and,
if it is strict, every shape can be expressed. -/
theorem outcome_eq_ok_iff {strict : Bool} :
    report.outcome strict = .ok () ↔ report.resolutionErrors = [] ∧ report.symbolCollisions = [] ∧
      (strict → report.unsupportedShapes = []) := by
  rw [← unresolved_eq_nil_iff]
  unfold outcome
  show (if !report.unresolved.isEmpty then _ else _) = _ ↔ _
  by_cases resolved : report.unresolved = []
  · by_cases distinct : report.symbolCollisions = []
    · cases strict <;> simp [resolved, distinct]
    · simp [resolved, distinct]
  · simp [resolved]

@[simp] theorem resolutions_recordCollisions (collisions : List SymbolCollision) :
    (report.recordCollisions collisions).resolutions name = report.resolutions name := by
  unfold recordCollisions
  induction collisions generalizing report with
  | nil => rfl
  | cons e rest ih =>
    rw [List.foldl_cons, ih]
    unfold resolutions
    rw [diagnostics_record]
    split
    · rename_i same
      rw [same]
      unfold added
      split
      · rfl
      · simp [Diagnostic.resolution?]
    · rfl

end Report

namespace SymbolTable

/-- Making exported names distinct adds collisions to a report and reads nothing of it. -/
theorem allocateAll_eq (config : Config) (models : NameMap Model) (report : Report) :
    allocateAll models config report =
      ((allocateAll models config ∅).1,
        report.recordCollisions (allClashes config ∅ models.values)) := by
  simp only [allocateAll, foldl_claimModel_eq]

end SymbolTable

namespace Generation

variable {config : Config} {registry : Registry} {closures : ClosureIndex} {name : String}

/-- What is noted of a schema: why it has no model, or what came up while it was generated. -/
def notesFor (generator : Generator) (registry : Registry) (closures : ClosureIndex)
    (name : String) (schema : Schema) : List Diagnostic :=
  match closures.closures.get? name with
  | some (.error e) => [.resolution e]
  | _ =>
    match generator.generate name schema registry closures with
    | .ok generated => generated.diagnostics
    | .error e => [.resolution e]

theorem snd_generateEntry (generator : Generator) (state : NameMap Model × Report)
    (entry : String × Schema) :
    (generateEntry generator registry closures state entry).2 =
      state.2.recordAll entry.1 (notesFor generator registry closures entry.1 entry.2) := by
  unfold generateEntry notesFor
  cases closures.closures.get? entry.1 with
  | none => cases generator.generate entry.1 entry.2 registry closures <;> rfl
  | some closure =>
    cases closure with
    | error e => rfl
    | ok reached => cases generator.generate entry.1 entry.2 registry closures <;> rfl

theorem diagnostics_foldl_generateEntry {generator : Generator}
    {entries : List (String × Schema)} (nodup : (entries.map Prod.fst).Nodup)
    (state : NameMap Model × Report) (name : String) :
    (entries.foldl (generateEntry generator registry closures) state).2.diagnostics name =
      match entries.lookup name with
      | none => state.2.diagnostics name
      | some schema =>
        (notesFor generator registry closures name schema).foldl Report.added
          (state.2.diagnostics name) := by
  induction entries generalizing state with
  | nil => rfl
  | cons entry rest ih =>
    obtain ⟨fresh, nodup⟩ := List.nodup_cons.1 nodup
    rw [List.foldl_cons, ih nodup, snd_generateEntry, Report.diagnostics_recordAll, List.lookup_cons]
    by_cases here : name = entry.1
    · have absent : rest.lookup name = none := Listing.lookup_eq_none (here ▸ fresh)
      rw [absent, if_pos here, here, beq_self_eq_true]
    · have different : (name == entry.1) = false := by simpa using here
      rw [if_neg here, different]

/-- What is reported of a schema before the exported names are made distinct. -/
theorem diagnostics_drafts (config : Config) (registry : Registry) (name : String) :
    (drafts config registry).2.diagnostics name =
      match registry.get? name with
      | none => []
      | some schema =>
        (notesFor (generator config) registry (.ofRegistry registry) name schema).foldl
          Report.added [] := by
  unfold drafts
  rw [generateAll_eq_foldl, diagnostics_foldl_generateEntry registry.schemas.nodup_keys]
  rfl

/-- What a run reports: what came up while the schemas were generated, and their collisions. -/
theorem report_run (config : Config) (registry : Registry) (usage : Usage) :
    (run config registry usage).report =
      (drafts config registry).2.recordCollisions
        (SymbolTable.allClashes config ∅ (drafts config registry).1.values) :=
  congrArg Prod.snd (SymbolTable.allocateAll_eq config (drafts config registry).1 _)

theorem resolutions_run_eq_drafts (config : Config) (registry : Registry) (usage : Usage)
    (name : String) :
    (run config registry usage).report.resolutions name =
      (drafts config registry).2.resolutions name := by
  rw [report_run, Report.resolutions_recordCollisions]

end Generation

end ZodModules
