import ZodModules.Proofs.Expr.MappingEnums

/-!
# Enums that a mapping meets

Which strings with several literals a mapping comes to, and with which notes, whether it succeeds or
fails in the end. All of them are declared when it ends, and nothing else is declared on the way.
-/

namespace ZodModules.Mapping

open Model (EnumDeclaration)

variable {scope : Scope} {α β : Type}

/-- The notes that a step from a state leaves, whether it succeeds or fails. -/
def notesAfter (step : MapM α) (before : State) : State := (outcome step before).2

theorem Yields.notesAfter_eq {step : MapM α} {before after : State} {value : α}
    (h : Yields step before value after) : notesAfter step before = after :=
  congrArg Prod.snd h

theorem notesAfter_bind_of_yields {step : MapM α} {before middle : State} {a : α}
    (h : Yields step before a middle) (next : α → MapM β) :
    notesAfter (step >>= next) before = notesAfter (next a) middle := by
  unfold notesAfter
  rw [outcome_bind, h]

theorem notesAfter_bind_of_fails {step : MapM α} {before : State} {e : ResolutionError}
    (h : Fails step before e) (next : α → MapM β) :
    notesAfter (step >>= next) before = notesAfter step before := by
  unfold notesAfter
  rw [outcome_bind, h]

theorem notesAfter_bind_pure (step : MapM α) (f : α → β) (before : State) :
    notesAfter (step >>= fun a => pure (f a)) before = notesAfter step before := by
  rcases yields_or_fails step before with ⟨a, middle, run⟩ | ⟨e, failed⟩
  · rw [notesAfter_bind_of_yields run, run.notesAfter_eq]
    rfl
  · exact notesAfter_bind_of_fails failed _

/-- What is mapped at a time: a value, or the branches of a union that are left. -/
inductive Task where
  | value (schema : Schema) (hint path : String)
  | branches (hint path : String) (count index : Nat) (rest : List Schema)

/-- The notes that a task from a state leaves, whether it succeeds or fails. -/
def Task.after (scope : Scope) : Task → State → State
  | .value schema hint path => notesAfter (mapValue scope schema hint path)
  | .branches hint path count index rest =>
    notesAfter (mapBranches scope hint path count index rest)

/-- A string at the time that it is mapped: what is known of it, its hint, and the notes. -/
structure Occurrence where
  facets : Schema.StringFacets
  hint : String
  before : State

/-- The enum that the literals of a string ask for. -/
def Occurrence.enum (scope : Scope) (string : Occurrence) : EnumDeclaration :=
  enumOf scope string.facets.literals string.hint

/-- The enum under the names that the string is used under. -/
def Occurrence.used (scope : Scope) (string : Occurrence) : EnumDeclaration :=
  fitted string.before.enums (string.enum scope)

/-- A task from a state comes to a string with several literals. -/
inductive Meets (scope : Scope) (string : Occurrence) : Task → State → Prop where
  | here {metadata path} (several : 2 ≤ string.facets.literals.length) :
    Meets scope string (.value ⟨.string string.facets, metadata⟩ string.hint path) string.before
  | dictionary {name first rest required metadata hint path before}
    (uniform : isDictionary ⟨name, first⟩ rest)
    (inner : Meets scope string (.value first hint (childPath path name)) before) :
    Meets scope string (.value ⟨.object (⟨name, first⟩ :: rest) required, metadata⟩ hint path)
      before
  | record {value metadata hint path before}
    (inner : Meets scope string
      (.value value hint (childPath path "additionalProperties")) before) :
    Meets scope string (.value ⟨.record value, metadata⟩ hint path) before
  | array {items metadata hint path before}
    (inner : Meets scope string
      (.value items (Naming.singularize hint) (childPath path "items")) before) :
    Meets scope string (.value ⟨.array (some items), metadata⟩ hint path) before
  | oneOf {branches discriminator metadata hint path before}
    (inner : Meets scope string
      (.branches hint path (branches.countP (!isNull ·)) 0 branches) before) :
    Meets scope string (.value ⟨.oneOf branches discriminator, metadata⟩ hint path) before
  | skip {hint path count index branch branches before} (null : isNull branch)
    (inner : Meets scope string (.branches hint path count index branches) before) :
    Meets scope string (.branches hint path count index (branch :: branches)) before
  | first {hint path count index branch branches before} (notNull : ¬ isNull branch)
    (inner : Meets scope string (.value branch hint (branchPath path count index)) before) :
    Meets scope string (.branches hint path count index (branch :: branches)) before
  | later {hint path count index branch branches before value middle} (notNull : ¬ isNull branch)
    (run : Yields (mapValue scope branch hint (branchPath path count index)) before value middle)
    (inner : Meets scope string (.branches hint path count (index + 1) branches) middle) :
    Meets scope string (.branches hint path count index (branch :: branches)) before

theorem Meets.several {string : Occurrence} {task : Task} {before : State}
    (meets : Meets scope string task before) : 2 ≤ string.facets.literals.length := by
  induction meets with
  | here several => exact several
  | dictionary _ _ ih | record _ ih | array _ ih | oneOf _ ih => exact ih
  | skip _ _ ih | first _ _ ih | later _ _ _ ih => exact ih

section Steps

variable {metadata : Schema.Metadata} {hint path : String} {before : State}

theorem after_string {facets : Schema.StringFacets} :
    (Task.value ⟨.string facets, metadata⟩ hint path).after scope before =
      if 2 ≤ facets.literals.length then before.declare (enumOf scope facets.literals hint)
      else before := by
  rw [Task.after, mapValue, notesAfter_bind_pure]
  rcases yields_or_fails (mapString scope facets hint) before with ⟨value, after, run⟩ | ⟨e, failed⟩
  · rw [run.notesAfter_eq]
    rcases yields_mapString run with ⟨unlisted, rfl, -⟩ | ⟨literal, one, rfl, -⟩ | ⟨several, rfl, -⟩
    · rw [unlisted]
      rfl
    · rw [one]
      rfl
    · rw [if_pos several]
  · exact absurd failed not_fails_mapString

theorem after_dictionary {name : String} {first : Schema} {rest : List (Schema.Property Schema)}
    {required : NameSet} (uniform : isDictionary ⟨name, first⟩ rest) :
    (Task.value ⟨.object (⟨name, first⟩ :: rest) required, metadata⟩ hint path).after scope before =
      (Task.value first hint (childPath path name)).after scope before := by
  rw [Task.after, mapValue, if_pos uniform, notesAfter_bind_pure]
  rfl

theorem after_record {value : Schema} :
    (Task.value ⟨.record value, metadata⟩ hint path).after scope before =
      (Task.value value hint (childPath path "additionalProperties")).after scope before := by
  rw [Task.after, mapValue, notesAfter_bind_pure]
  rfl

theorem after_array {items : Schema} :
    (Task.value ⟨.array (some items), metadata⟩ hint path).after scope before =
      (Task.value items (Naming.singularize hint) (childPath path "items")).after scope before := by
  rw [Task.after, mapValue, notesAfter_bind_pure]
  rfl

theorem after_oneOf {branches : List Schema} {discriminator : Option String} :
    (Task.value ⟨.oneOf branches discriminator, metadata⟩ hint path).after scope before =
      (Task.branches hint path (branches.countP (!isNull ·)) 0 branches).after scope before := by
  rw [Task.after, mapValue, notesAfter_bind_pure]
  rfl

theorem enums_after_ref {target : String} :
    ((Task.value ⟨.ref target, metadata⟩ hint path).after scope before).enums = before.enums := by
  rw [Task.after, mapValue, notesAfter_bind_pure]
  cases registered : scope.registry.get? target with
  | none =>
    unfold mapReference
    rw [registered]
    rfl
  | some schema =>
    rw [(yields_mapReference.2 ⟨schema, registered, rfl, rfl⟩).notesAfter_eq]
    exact enums_visit

variable {count index : Nat} {branch : Schema} {branches : List Schema}

theorem after_null (null : isNull branch) :
    (Task.branches hint path count index (branch :: branches)).after scope before =
      (Task.branches hint path count index branches).after scope before := by
  show notesAfter (mapBranches scope hint path count index (branch :: branches)) before = _
  rw [mapBranches, if_pos null]
  rfl

theorem after_branch (notNull : ¬ isNull branch) {value : Mapped} {middle : State}
    (run : Yields (mapValue scope branch hint (branchPath path count index)) before value middle) :
    (Task.branches hint path count index (branch :: branches)).after scope before =
      (Task.branches hint path count (index + 1) branches).after scope middle := by
  show notesAfter (mapBranches scope hint path count index (branch :: branches)) before = _
  rw [mapBranches, if_neg notNull, notesAfter_bind_of_yields run, notesAfter_bind_pure]
  rfl

/-- A branch that fails is the last one that is mapped. -/
theorem after_failed (notNull : ¬ isNull branch) {e : ResolutionError}
    (failed : Fails (mapValue scope branch hint (branchPath path count index)) before e) :
    (Task.branches hint path count index (branch :: branches)).after scope before =
      (Task.value branch hint (branchPath path count index)).after scope before := by
  show notesAfter (mapBranches scope hint path count index (branch :: branches)) before = _
  rw [mapBranches, if_neg notNull, notesAfter_bind_of_fails failed]
  rfl

end Steps

/-- A task keeps the enums that are there, and what it adds are enums of strings that it meets. -/
structure Adds (scope : Scope) (task : Task) (before : State) : Prop where
  further : Extends scope before (task.after scope before)
  origin : ∀ known ∈ (task.after scope before).enums, known ∉ before.enums →
    ∃ string, Meets scope string task before ∧ known = string.used scope

namespace Adds

variable {task : Task} {before : State}

theorem of_eq (same : (task.after scope before).enums = before.enums) :
    Adds scope task before where
  further := .of_eq same
  origin _ member new := absurd (same ▸ member) new

/-- A task adds what the only part of it does. -/
theorem of_part {part : Task} (adds : Adds scope part before)
    (same : task.after scope before = part.after scope before)
    (meets : ∀ string, Meets scope string part before → Meets scope string task before) :
    Adds scope task before where
  further := same ▸ adds.further
  origin known member new := by
    obtain ⟨string, met, names⟩ := adds.origin known (same ▸ member) new
    exact ⟨string, meets string met, names⟩

/-- A task adds what its first part does and what the rest does after that. -/
theorem of_parts {part rest : Task} {middle : State} (first : Adds scope part before)
    (between : part.after scope before = middle) (second : Adds scope rest middle)
    (same : task.after scope before = rest.after scope middle)
    (meets : ∀ string, Meets scope string part before → Meets scope string task before)
    (meets' : ∀ string, Meets scope string rest middle → Meets scope string task before) :
    Adds scope task before where
  further := same ▸ (between ▸ first.further).trans second.further
  origin known member new := by
    by_cases earlier : known ∈ middle.enums
    · obtain ⟨string, met, names⟩ := first.origin known (between ▸ earlier) new
      exact ⟨string, meets string met, names⟩
    · obtain ⟨string, met, names⟩ := second.origin known (same ▸ member) earlier
      exact ⟨string, meets' string met, names⟩

end Adds

theorem adds_string {facets : Schema.StringFacets} {metadata : Schema.Metadata}
    {hint path : String} {before : State} :
    Adds scope (.value ⟨.string facets, metadata⟩ hint path) before := by
  by_cases several : 2 ≤ facets.literals.length
  · have after : (Task.value ⟨.string facets, metadata⟩ hint path).after scope before =
        before.declare (enumOf scope facets.literals hint) := after_string.trans (if_pos several)
    refine ⟨?_, ?_⟩
    · rw [after]
      exact ⟨enums_prefix_declare _ _, fun collected => collected.declare _ _⟩
    · rw [after, enums_declare]
      intro known member new
      split at member
      · exact absurd member new
      · refine ⟨⟨facets, hint, before⟩, Meets.here several, ?_⟩
        exact List.mem_singleton.1 ((List.mem_append.1 member).resolve_left new)
  · exact .of_eq (congrArg State.enums (after_string.trans (if_neg several)))

mutual

/-- A value adds the enums that it meets, also if it fails in the end. -/
theorem adds_value : ∀ (schema : Schema) {hint path : String} {before : State},
    Adds scope (.value schema hint path) before
  | ⟨.string _, _⟩, _, _, _ => adds_string
  | ⟨.number _, _⟩, _, _, _ => .of_eq (by rw [Task.after, mapValue]; rfl)
  | ⟨.boolean, _⟩, _, _, _ => .of_eq (by rw [Task.after, mapValue]; rfl)
  | ⟨.null, _⟩, _, _, _ => .of_eq (by rw [Task.after, mapValue]; rfl)
  | ⟨.object [] _, _⟩, _, _, _ => .of_eq (by rw [Task.after, mapValue]; rfl)
  | ⟨.object (⟨name, first⟩ :: rest) _, _⟩, _, _, _ => by
    by_cases uniform : isDictionary ⟨name, first⟩ rest
    · exact .of_part (adds_value first) (after_dictionary uniform) fun _ => .dictionary uniform
    · refine .of_eq ?_
      rw [Task.after, mapValue, if_neg uniform]
      rfl
  | ⟨.record value, _⟩, _, _, _ => .of_part (adds_value value) after_record fun _ => .record
  | ⟨.array none, _⟩, _, _, _ => .of_eq (by rw [Task.after, mapValue]; rfl)
  | ⟨.array (some items), _⟩, _, _, _ => .of_part (adds_value items) after_array fun _ => .array
  | ⟨.oneOf branches _, _⟩, _, _, _ => .of_part (adds_branches branches) after_oneOf fun _ => .oneOf
  | ⟨.ref _, _⟩, _, _, _ => .of_eq enums_after_ref

/-- The same for the branches of a union. -/
theorem adds_branches : ∀ (branches : List Schema) {hint path : String} {count index : Nat}
    {before : State}, Adds scope (.branches hint path count index branches) before
  | [], _, _, _, _, _ => .of_eq (by rw [Task.after, mapBranches]; rfl)
  | branch :: branches, hint, path, count, index, before => by
    by_cases null : isNull branch
    · exact .of_part (adds_branches branches) (after_null null) fun _ => .skip null
    · rcases yields_or_fails (mapValue scope branch hint (branchPath path count index)) before with
        ⟨value, middle, run⟩ | ⟨e, failed⟩
      · exact .of_parts (adds_value branch) run.notesAfter_eq (adds_branches branches)
          (after_branch null run) (fun _ => .first null) fun _ => .later null run
      · exact .of_part (adds_value branch) (after_failed null failed) fun _ => .first null

end

/-- A string that is met is declared when its task ends. -/
theorem Meets.declared {string : Occurrence} {task : Task} {before : State}
    (meets : Meets scope string task before) :
    (string.before.declare (string.enum scope)).enums <+: (task.after scope before).enums := by
  induction meets with
  | here several =>
    rw [after_string, if_pos several]
    exact List.prefix_refl _
  | dictionary uniform _ ih =>
    rw [after_dictionary uniform]
    exact ih
  | record _ ih =>
    rw [after_record]
    exact ih
  | array _ ih =>
    rw [after_array]
    exact ih
  | oneOf _ ih =>
    rw [after_oneOf]
    exact ih
  | skip null _ ih =>
    rw [after_null null]
    exact ih
  | @first hint path count index branch branches before notNull _ ih =>
    rcases yields_or_fails (mapValue scope branch hint (branchPath path count index)) before with
      ⟨value, middle, run⟩ | ⟨e, failed⟩
    · rw [after_branch notNull run]
      rw [Task.after, run.notesAfter_eq] at ih
      exact ih.trans (adds_branches branches).further.ahead
    · rw [after_failed notNull failed]
      exact ih
  | later notNull run _ ih =>
    rw [after_branch notNull run]
    exact ih

end ZodModules.Mapping
