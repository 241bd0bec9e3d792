import ZodModules.Report
import Mathlib.Data.List.Basic

/-!
# What a report holds

Recording adds a diagnostic to those of one schema, unless it is there, and changes nothing else.
Collisions are recorded each under the schema that comes later.
-/

namespace ZodModules.Report

variable {report : Report} {schema name : String} {diagnostic other : Diagnostic}

theorem mem_all_iff : diagnostic ∈ report.all ↔ ∃ name, diagnostic ∈ report.diagnostics name := by
  unfold all NameMap.values diagnostics
  rw [List.mem_flatten]
  constructor
  · rintro ⟨listed, member, inside⟩
    obtain ⟨⟨name, listed⟩, entry, rfl⟩ := List.mem_map.1 member
    exact ⟨name, by rw [NameMap.mem_entries_iff.1 entry]; exact inside⟩
  · rintro ⟨name, inside⟩
    cases found : report.entries.get? name with
    | none =>
      rw [found] at inside
      cases inside
    | some listed =>
      rw [found] at inside
      exact ⟨listed, List.mem_map.2 ⟨(name, listed), NameMap.mem_entries_iff.2 found, rfl⟩, inside⟩

/-- A list of diagnostics with one more, unless it is there. -/
def added (listed : List Diagnostic) (diagnostic : Diagnostic) : List Diagnostic :=
  if listed.contains diagnostic then listed else listed ++ [diagnostic]

theorem mem_added {listed : List Diagnostic} :
    other ∈ added listed diagnostic ↔ other ∈ listed ∨ other = diagnostic := by
  unfold added
  split
  · rename_i known
    have inside : other = diagnostic → other ∈ listed := fun same =>
      same ▸ List.contains_iff_mem.1 known
    exact ⟨Or.inl, fun either => either.elim id inside⟩
  · rw [List.mem_append, List.mem_singleton]

/-- No diagnostic comes to be there twice. -/
theorem count_added_le (listed : List Diagnostic) (diagnostic other : Diagnostic) :
    (added listed diagnostic).count other ≤ max 1 (listed.count other) := by
  unfold added
  split
  · exact Nat.le_max_right _ _
  · rename_i unknown
    rw [List.count_append]
    by_cases same : diagnostic = other
    · have absent : other ∉ listed := fun member =>
        unknown (List.contains_iff_mem.2 (same ▸ member))
      rw [List.count_eq_zero_of_not_mem absent, Nat.zero_add]
      exact Nat.le_trans List.count_le_length (Nat.le_max_left _ _)
    · rw [List.count_singleton, if_neg (by simpa using same), Nat.add_zero]
      exact Nat.le_max_right _ _

theorem mem_foldl_added {diagnostics listed : List Diagnostic} :
    other ∈ diagnostics.foldl added listed ↔ other ∈ listed ∨ other ∈ diagnostics := by
  induction diagnostics generalizing listed with
  | nil => simp
  | cons diagnostic rest ih => rw [List.foldl_cons, ih, mem_added, List.mem_cons, or_assoc]

/-- Recording changes what is known of the one schema. -/
theorem diagnostics_record (diagnostic : Diagnostic) :
    (report.record schema diagnostic).diagnostics name =
      if name = schema then added (report.diagnostics schema) diagnostic
      else report.diagnostics name := by
  unfold diagnostics record
  rw [NameMap.get?_alter]
  split <;> rfl

theorem diagnostics_recordAll (diagnostics : List Diagnostic) :
    (report.recordAll schema diagnostics).diagnostics name =
      if name = schema then diagnostics.foldl added (report.diagnostics schema)
      else report.diagnostics name := by
  unfold recordAll
  induction diagnostics generalizing report with
  | nil =>
    split
    · rename_i same
      rw [same]
      rfl
    · rfl
  | cons diagnostic rest ih =>
    rw [List.foldl_cons, ih]
    simp only [diagnostics_record, if_true]
    split <;> rfl

theorem mem_diagnostics_record :
    other ∈ (report.record schema diagnostic).diagnostics name ↔
      other ∈ report.diagnostics name ∨ name = schema ∧ other = diagnostic := by
  rw [diagnostics_record]
  by_cases own : name = schema
  · rw [if_pos own, mem_added, own]
    simp
  · rw [if_neg own]
    simp [own]

/-! ## Collisions -/

theorem mem_symbolCollisions_iff {e : SymbolCollision} :
    e ∈ report.symbolCollisions ↔ ∃ name, .collision e ∈ report.diagnostics name := by
  unfold symbolCollisions
  rw [List.mem_filterMap, ← mem_all_iff]
  constructor
  · rintro ⟨diagnostic, member, found⟩
    cases diagnostic with
    | collision other =>
      cases found
      exact member
    | _ => cases found
  · intro member
    exact ⟨_, member, rfl⟩

/-- Records collisions, each under the schema that comes later. -/
def recordCollisions (report : Report) (collisions : List SymbolCollision) : Report :=
  collisions.foldl (fun report e => report.record e.schema (.collision e)) report

theorem recordCollisions_append (first second : List SymbolCollision) :
    (report.recordCollisions first).recordCollisions second =
      report.recordCollisions (first ++ second) :=
  List.foldl_append.symm

theorem mem_diagnostics_recordCollisions {collisions : List SymbolCollision} :
    other ∈ (report.recordCollisions collisions).diagnostics name ↔
      other ∈ report.diagnostics name ∨ ∃ e ∈ collisions, e.schema = name ∧ other = .collision e := by
  unfold recordCollisions
  induction collisions generalizing report with
  | nil => simp
  | cons e rest ih =>
    rw [List.foldl_cons, ih, mem_diagnostics_record, List.exists_mem_cons_iff, or_assoc,
      @eq_comm _ name]

theorem mem_symbolCollisions_recordCollisions {collisions : List SymbolCollision}
    {e : SymbolCollision} :
    e ∈ (report.recordCollisions collisions).symbolCollisions ↔
      e ∈ report.symbolCollisions ∨ e ∈ collisions := by
  simp only [mem_symbolCollisions_iff, mem_diagnostics_recordCollisions, Diagnostic.collision.injEq]
  constructor
  · rintro ⟨name, known | ⟨other, member, -, rfl⟩⟩
    · exact Or.inl ⟨name, known⟩
    · exact Or.inr member
  · rintro (⟨name, known⟩ | member)
    · exact ⟨name, Or.inl known⟩
    · exact ⟨e.schema, Or.inr ⟨e, member, rfl, rfl⟩⟩

/-- However often a collision is recorded, it is there once. -/
theorem count_recordCollisions_le (report : Report) (name : String)
    (collisions : List SymbolCollision) (other : Diagnostic) :
    ((report.recordCollisions collisions).diagnostics name).count other ≤
      max 1 ((report.diagnostics name).count other) := by
  unfold recordCollisions
  induction collisions generalizing report with
  | nil => exact Nat.le_max_right _ _
  | cons e rest ih =>
    rw [List.foldl_cons]
    refine Nat.le_trans (ih _) (Nat.max_le.2 ⟨Nat.le_max_left _ _, ?_⟩)
    rw [diagnostics_record]
    split
    · rename_i own
      rw [own]
      exact count_added_le _ _ _
    · exact Nat.le_max_right _ _

theorem diagnostics_recordCollisions_congr {other : Report}
    (same : report.diagnostics name = other.diagnostics name) (collisions : List SymbolCollision) :
    (report.recordCollisions collisions).diagnostics name =
      (other.recordCollisions collisions).diagnostics name := by
  unfold recordCollisions
  induction collisions generalizing report other with
  | nil => exact same
  | cons e rest ih =>
    rw [List.foldl_cons, List.foldl_cons]
    apply ih
    rw [diagnostics_record, diagnostics_record]
    by_cases own : name = e.schema
    · rw [if_pos own, if_pos own, ← own, same]
    · rw [if_neg own, if_neg own, same]

end ZodModules.Report
