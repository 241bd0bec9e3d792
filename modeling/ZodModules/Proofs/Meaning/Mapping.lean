import ZodModules.Proofs.Meaning.Basic

/-!
# What mapped values accept

Mapping a plain schema yields a plain expression that accepts just the values of the schema, also
next to the enums that are declared later.
-/

namespace ZodModules

namespace Schema

mutual

/-- Whether a schema other than an object is built from parts that an expression renders in full:
without formats, patterns and discriminators. -/
def IsPlain : Schema → Prop
  | ⟨.string facets, _⟩ => facets.format = none ∧ facets.pattern = none
  | ⟨.number _, _⟩ | ⟨.boolean, _⟩ | ⟨.null, _⟩ | ⟨.ref _, _⟩ => True
  | ⟨.record item, _⟩ => item.IsPlain
  | ⟨.array (some item), _⟩ => item.IsPlain
  | ⟨.oneOf branches discriminator, _⟩ => discriminator = none ∧ ArePlain branches
  | ⟨.object _ _, _⟩ | ⟨.array none, _⟩ => False

/-- Whether some schemas are all plain. -/
def ArePlain : List Schema → Prop
  | [] => True
  | branch :: branches => branch.IsPlain ∧ ArePlain branches

end

end Schema

namespace Mapping

open Model (EnumDeclaration)

variable {scope : Scope}

/-- Whether some names stand for the same values as their validators. -/
def Scope.Agrees (scope : Scope) (cited : List String) (reading : Reading) : Prop :=
  ∀ target ∈ cited, ∀ value,
    reading.symbol (Naming.validatorName target scope.validatorSuffix) value ↔
      reading.schema target value

/-- Whether all names are registered and none of them closes a cycle. -/
def Scope.Resolves (scope : Scope) (cited : List String) : Prop :=
  ∀ target ∈ cited, scope.registry.contains target ∧ ¬ scope.closes target

/-- The expression accepts just the values that are admitted, next to any enums that continue those
of a state. -/
structure Expresses (scope : Scope) (cited : List String) (state : State)
    (admits : Reading → Json → Prop) (validator : Validator) : Prop where
  plain : validator.IsPlain
  accepts : ∀ {reading : Reading} {enums : List EnumDeclaration}, state.enums <+: enums →
    scope.Agrees cited reading → ∀ given,
      validator.Accepts reading enums given ↔ ∃ value, given = some value ∧ admits reading value

variable {cited : List String} {state : State} {admits : Reading → Json → Prop}
  {validator : Validator}

theorem Expresses.later {after : State} (h : Expresses scope cited state admits validator)
    (ahead : state.enums <+: after.enums) : Expresses scope cited after admits validator :=
  ⟨h.plain, fun further agrees => h.accepts (ahead.trans further) agrees⟩

/-- A value that is there is accepted just if it is admitted. -/
theorem Expresses.accepts_some (h : Expresses scope cited state admits validator)
    {reading : Reading} {enums : List EnumDeclaration} (ahead : state.enums <+: enums)
    (agrees : scope.Agrees cited reading) (value : Json) :
    validator.Accepts reading enums (some value) ↔ admits reading value := by
  rw [h.accepts ahead agrees]
  constructor
  · rintro ⟨given, same, admitted⟩
    exact Option.some.inj same ▸ admitted
  · intro admitted
    exact ⟨value, rfl, admitted⟩

theorem Expresses.congr {admits' : Reading → Json → Prop}
    (h : Expresses scope cited state admits validator)
    (same : ∀ reading value, admits reading value ↔ admits' reading value) :
    Expresses scope cited state admits' validator := by
  refine ⟨h.plain, fun ahead agrees given => ?_⟩
  simp only [h.accepts ahead agrees, same]

theorem Expresses.orNull {value : Mapped}
    (h : Expresses scope cited state admits value.applyNullable.validator) (flag : Bool) :
    Expresses scope cited state (fun reading given => (flag ∧ given = .null) ∨ admits reading given)
      (value.orNull flag).applyNullable.validator := by
  have plain : (value.validator.orNull value.nullable).IsPlain := h.plain
  rw [Validator.isPlain_orNull] at plain
  refine ⟨Validator.isPlain_orNull.2 plain, fun ahead agrees given => ?_⟩
  have accepts := h.accepts ahead agrees given
  change (value.validator.orNull value.nullable).Accepts _ _ given ↔ _ at accepts
  change (value.validator.orNull (value.nullable || flag)).Accepts _ _ given ↔ _
  rw [Validator.accepts_orNull] at accepts ⊢
  rw [Bool.or_eq_true, or_and_right, ← or_assoc, accepts]
  constructor
  · rintro (⟨json, rfl, admitted⟩ | ⟨set, rfl⟩)
    · exact ⟨json, rfl, Or.inr admitted⟩
    · exact ⟨.null, rfl, Or.inl ⟨set, rfl⟩⟩
  · rintro ⟨json, rfl, ⟨set, rfl⟩ | admitted⟩
    · exact Or.inr ⟨set, rfl⟩
    · exact Or.inl ⟨json, rfl, admitted⟩

theorem passes_stringChecks_iff {reading : Reading} {facets : Schema.StringFacets} {text : String}
    (plain : facets.format = none ∧ facets.pattern = none) (free : facets.literals = []) :
    (∀ check ∈ stringChecks facets, check.Passes reading text) ↔ facets.Admits reading text := by
  obtain ⟨format, pattern⟩ := plain
  unfold stringChecks Schema.StringFacets.Admits
  rw [if_pos free, format, pattern]
  cases facets.minLength with
  | none => cases facets.maxLength <;> simp [StringCheck.Passes]
  | some least => cases facets.maxLength <;> simp [StringCheck.Passes]

theorem isPlain_stringChecks {facets : Schema.StringFacets}
    (plain : facets.format = none ∧ facets.pattern = none) :
    (Validator.string (stringChecks facets)).IsPlain := by
  obtain ⟨format, pattern⟩ := plain
  intro check member
  unfold stringChecks at member
  rw [format, pattern] at member
  simp only [Option.bind_none, Option.map_none, Option.toList_none, Option.filter_none,
    List.nil_append, List.append_nil, List.mem_append, Option.mem_toList, Option.map_eq_some_iff]
    at member
  rcases member with ⟨least, -, rfl⟩ | ⟨most, -, rfl⟩
  · exact ⟨least, Or.inl rfl⟩
  · exact ⟨most, Or.inr rfl⟩

/-- A string without format and pattern. The values of an enum are read where it is declared. -/
theorem expresses_mapString {facets : Schema.StringFacets} {hint : String} {before after : State}
    {value : Mapped} (plain : facets.format = none ∧ facets.pattern = none)
    (run : Yields (mapString scope facets hint) before value after) :
    Expresses scope cited after
      (fun reading given => ∃ text, given = .string text ∧ facets.Admits reading text)
      value.applyNullable.validator := by
  rcases yields_mapString run with
    ⟨free, rfl, rfl⟩ | ⟨literal, single, rfl, rfl⟩ | ⟨several, rfl, rfl⟩
  · refine ⟨isPlain_stringChecks plain, fun ahead agrees given => ?_⟩
    show (Validator.string (stringChecks facets)).Accepts _ _ given ↔ _
    rw [Validator.Accepts]
    simp only [passes_stringChecks_iff plain free]
    constructor
    · rintro ⟨text, rfl, admitted⟩
      exact ⟨.string text, rfl, text, rfl, admitted⟩
    · rintro ⟨_, rfl, text, rfl, admitted⟩
      exact ⟨text, rfl, admitted⟩
  · refine ⟨trivial, fun ahead agrees given => ?_⟩
    show (Validator.literal literal).Accepts _ _ given ↔ _
    rw [Validator.Accepts]
    simp [Schema.StringFacets.Admits, single]
  · refine ⟨trivial, fun {reading enums} ahead agrees given => ?_⟩
    obtain ⟨known, found, values⟩ := declared?_declare before (enumOf scope facets.literals hint)
    have declared := declared?_of_prefix ahead found
    have nonempty : facets.literals ≠ [] := by
      intro empty
      rw [empty] at several
      cases several
    show (Validator.enum (fitted before.enums (enumOf scope facets.literals hint)).constant).Accepts
      _ _ given ↔ _
    rw [Validator.Accepts, declared]
    have listed : known.values = facets.literals := values
    constructor
    · rintro ⟨_, text, same, rfl, member⟩
      cases same
      refine ⟨.string text, rfl, text, rfl, ?_⟩
      rw [Schema.StringFacets.Admits, if_neg nonempty, ← listed]
      exact member
    · rintro ⟨_, rfl, text, rfl, admitted⟩
      rw [Schema.StringFacets.Admits, if_neg nonempty, ← listed] at admitted
      exact ⟨known, text, rfl, rfl, admitted⟩

theorem passes_numberChecks_iff {facets : Schema.NumberFacets} {quantity : Rat} :
    (∀ check ∈ numberChecks facets, check.Passes quantity) ↔ facets.Admits quantity := by
  unfold numberChecks Schema.NumberFacets.Admits
  cases facets.integer with
  | false => cases facets.minimum <;> cases facets.maximum <;> simp [NumberCheck.Passes]
  | true => cases facets.minimum <;> cases facets.maximum <;> simp [NumberCheck.Passes]

theorem expresses_number {facets : Schema.NumberFacets} :
    Expresses scope cited state
      (fun reading given =>
        ∃ number, given = .number number ∧ facets.Admits (reading.quantity number))
      (.number (numberChecks facets)) := by
  refine ⟨trivial, fun ahead agrees given => ?_⟩
  rw [Validator.Accepts]
  simp only [passes_numberChecks_iff]
  constructor
  · rintro ⟨number, rfl, admitted⟩
    exact ⟨.number number, rfl, number, rfl, admitted⟩
  · rintro ⟨_, rfl, number, rfl, admitted⟩
    exact ⟨number, rfl, admitted⟩

theorem expresses_boolean :
    Expresses scope cited state (fun _ given => ∃ b, given = .bool b) .boolean := by
  refine ⟨trivial, fun ahead agrees given => ?_⟩
  rw [Validator.Accepts]
  simp

theorem expresses_null : Expresses scope cited state (fun _ given => given = .null) .null := by
  refine ⟨trivial, fun ahead agrees given => ?_⟩
  rw [Validator.Accepts]
  simp

/-- The objects whose members are all as one expression asks for. -/
theorem Expresses.record (h : Expresses scope cited state admits validator) :
    Expresses scope cited state
      (fun reading given =>
        ∃ members, given = .object members ∧ ∀ member ∈ members, admits reading member.2)
      (.record validator) := by
  refine ⟨h.plain, fun {reading enums} ahead agrees given => ?_⟩
  rw [Validator.Accepts]
  simp only [h.accepts_some ahead agrees]
  constructor
  · rintro ⟨members, rfl, all⟩
    exact ⟨.object members, rfl, members, rfl, all⟩
  · rintro ⟨_, rfl, members, rfl, all⟩
    exact ⟨members, rfl, all⟩

/-- The arrays whose items are all as one expression asks for. -/
theorem Expresses.array (h : Expresses scope cited state admits validator) :
    Expresses scope cited state
      (fun reading given => ∃ items, given = .array items ∧ ∀ value ∈ items, admits reading value)
      (.array validator) := by
  refine ⟨h.plain, fun {reading enums} ahead agrees given => ?_⟩
  rw [Validator.Accepts]
  simp only [h.accepts_some ahead agrees]
  constructor
  · rintro ⟨items, rfl, all⟩
    exact ⟨.array items, rfl, items, rfl, all⟩
  · rintro ⟨_, rfl, items, rfl, all⟩
    exact ⟨items, rfl, all⟩

theorem expresses_reference {target : String} {schema : Schema} (opens : ¬ scope.closes target) :
    Expresses scope [target] state (fun reading => reading.schema target)
      (referenceValue scope target schema).applyNullable.validator := by
  have symbol : (referenceValue scope target schema).applyNullable.validator =
      .symbol (Naming.validatorName target scope.validatorSuffix) := if_neg opens
  rw [symbol]
  refine ⟨trivial, fun ahead agrees given => ?_⟩
  rw [Validator.Accepts]
  simp only [agrees target (List.mem_singleton_self _)]

/-- The values of the branches of a union that are not just `null`. -/
structure ExpressesBranches (scope : Scope) (branches : List Schema) (state : State)
    (values : List Mapped) : Prop where
  empty : values = [] ↔ ∀ branch ∈ branches, isNull branch
  plain : ∀ value ∈ values, value.applyNullable.validator.IsPlain
  accepts : ∀ {reading : Reading} {enums : List EnumDeclaration}, state.enums <+: enums →
    scope.Agrees (Schema.branchRefs branches) reading → ∀ given,
      (∃ value ∈ values, value.applyNullable.validator.Accepts reading enums given) ↔
        ∃ json, given = some json ∧ ∃ branch ∈ branches, ¬ isNull branch ∧
          branch.Admits reading json

variable {branch : Schema} {branches : List Schema} {values : List Mapped}

theorem expressesBranches_nil : ExpressesBranches scope [] state [] := by
  refine ⟨by simp, by simp, fun ahead agrees given => ?_⟩
  simp

theorem ExpressesBranches.skip (null : isNull branch)
    (h : ExpressesBranches scope branches state values) :
    ExpressesBranches scope (branch :: branches) state values := by
  refine ⟨?_, h.plain, fun ahead agrees given => ?_⟩
  · rw [h.empty, List.forall_mem_cons, and_iff_right null]
  · have agrees' := fun target member => agrees target (List.mem_append_right branch.refs member)
    rw [h.accepts ahead agrees']
    simp [null]

theorem ExpressesBranches.next {value : Mapped} {middle : State} (notNull : ¬ isNull branch)
    (first : Expresses scope branch.refs middle (fun reading => branch.Admits reading)
      value.applyNullable.validator)
    (ahead : middle.enums <+: state.enums) (h : ExpressesBranches scope branches state values) :
    ExpressesBranches scope (branch :: branches) state (value :: values) := by
  refine ⟨?_, ?_, fun further agrees given => ?_⟩
  · constructor
    · intro impossible
      cases impossible
    · intro all
      exact absurd (all branch List.mem_cons_self) notNull
  · rw [List.forall_mem_cons]
    exact ⟨first.plain, h.plain⟩
  · have agrees' := fun target member => agrees target (List.mem_append_right branch.refs member)
    have own := fun target member => agrees target
      (List.mem_append_left (Schema.branchRefs branches) member)
    have accepts := h.accepts further agrees' given
    have accepts' := first.accepts (ahead.trans further) own given
    rw [List.exists_mem_cons_iff, accepts, accepts']
    constructor
    · rintro (⟨json, rfl, admitted⟩ | ⟨json, rfl, other, member, rest⟩)
      · exact ⟨json, rfl, branch, List.mem_cons_self, notNull, admitted⟩
      · exact ⟨json, rfl, other, List.mem_cons_of_mem _ member, rest⟩
    · rintro ⟨json, rfl, other, member, rest⟩
      rcases List.mem_cons.1 member with rfl | member
      · exact Or.inl ⟨json, rfl, rest.2⟩
      · exact Or.inr ⟨json, rfl, other, member, rest⟩

theorem isPlain_unionOf (plain : ∀ value ∈ values, value.applyNullable.validator.IsPlain) :
    (unionOf scope none values).applyNullable.validator.IsPlain := by
  rcases values with _ | ⟨first, _ | ⟨second, rest⟩⟩
  · trivial
  · exact plain first List.mem_cons_self
  · show Validator.ArePlain _
    rw [Validator.arePlain_iff]
    intro validator member
    rw [List.map_map, List.mem_map] at member
    obtain ⟨value, inside, rfl⟩ := member
    exact plain value inside

theorem accepts_unionOf {reading : Reading} {enums : List EnumDeclaration} {given : Option Json} :
    (unionOf scope none values).applyNullable.validator.Accepts reading enums given ↔
      (values = [] ∧ given = some .null) ∨
        ∃ value ∈ values, value.applyNullable.validator.Accepts reading enums given := by
  rcases values with _ | ⟨first, _ | ⟨second, rest⟩⟩
  · show Validator.null.Accepts reading enums given ↔ _
    rw [Validator.Accepts]
    simp
  · simp [unionOf]
  · show Validator.SomeAccepts reading enums given _ ↔ _
    rw [Validator.someAccepts_iff]
    simp

theorem admits_of_isNull {reading : Reading} {json : Json} (null : isNull branch) :
    branch.Admits reading json ↔ json = .null := by
  obtain ⟨kind, metadata⟩ := branch
  cases kind with
  | null => rw [Schema.Admits]
  | _ => cases null

/-- A union is that of its branches besides `null`, and of `null` if there is such a branch. -/
theorem ExpressesBranches.union {discriminator : Option String} {metadata : Schema.Metadata}
    (plain : discriminator = none) (h : ExpressesBranches scope branches state values) :
    Expresses scope (Schema.branchRefs branches) state
      (fun reading => (Schema.mk (.oneOf branches discriminator) metadata).Admits reading)
      ((unionOf scope discriminator values).orNull
        (branches.any isNull || metadata.nullable)).applyNullable.validator := by
  subst plain
  have several : Expresses scope (Schema.branchRefs branches) state
      (fun reading json => ((∀ branch ∈ branches, isNull branch) ∧ json = .null) ∨
        ∃ branch ∈ branches, ¬ isNull branch ∧ branch.Admits reading json)
      (unionOf scope none values).applyNullable.validator := by
    refine ⟨isPlain_unionOf h.plain, fun ahead agrees given => ?_⟩
    rw [accepts_unionOf, h.accepts ahead agrees, h.empty]
    constructor
    · rintro (⟨all, rfl⟩ | ⟨json, rfl, branchAdmits⟩)
      · exact ⟨.null, rfl, Or.inl ⟨all, rfl⟩⟩
      · exact ⟨json, rfl, Or.inr branchAdmits⟩
    · rintro ⟨json, rfl, ⟨all, rfl⟩ | branchAdmits⟩
      · exact Or.inl ⟨all, rfl⟩
      · exact Or.inr ⟨json, rfl, branchAdmits⟩
  refine (several.orNull _).congr fun reading json => ?_
  rw [Schema.Admits, Schema.someAdmits_iff, Bool.or_eq_true, List.any_eq_true]
  constructor
  · rintro (⟨⟨branch, member, null⟩ | nullable, rfl⟩ | ⟨all, rfl⟩ | ⟨branch, member, -, admitted⟩)
    · exact Or.inr (Or.inr ⟨branch, member, (admits_of_isNull null).2 rfl⟩)
    · exact Or.inl ⟨nullable, rfl⟩
    · cases branches with
      | nil => exact Or.inr (Or.inl ⟨rfl, rfl⟩)
      | cons branch rest =>
        have null := all branch List.mem_cons_self
        exact Or.inr (Or.inr ⟨branch, List.mem_cons_self, (admits_of_isNull null).2 rfl⟩)
    · exact Or.inr (Or.inr ⟨branch, member, admitted⟩)
  · rintro (⟨nullable, rfl⟩ | ⟨rfl, rfl⟩ | ⟨branch, member, admitted⟩)
    · exact Or.inl ⟨Or.inr nullable, rfl⟩
    · exact Or.inr (Or.inl ⟨by simp, rfl⟩)
    · by_cases null : isNull branch
      · have value := (admits_of_isNull null).1 admitted
        exact Or.inl ⟨Or.inl ⟨branch, member, null⟩, value⟩
      · exact Or.inr (Or.inr ⟨branch, member, null, admitted⟩)

/-- What is shown of the mapping of a plain schema without cycles. -/
def MapsFaithfully (scope : Scope) (schema : Schema) (after : State) (value : Mapped) : Prop :=
  schema.IsPlain → scope.Resolves schema.refs →
    Expresses scope schema.refs after (fun reading => schema.Admits reading)
      value.applyNullable.validator

theorem faithful_rules : Rules scope
    (fun schema _ _ _ value after => MapsFaithfully scope schema after value)
    (fun _ _ _ _ branches before values after => before.enums <+: after.enums ∧
      (Schema.ArePlain branches → scope.Resolves (Schema.branchRefs branches) →
        ExpressesBranches scope branches after values)) where
  string run plain _ := (expresses_mapString plain run).orNull _
  number _ _ := expresses_number.orNull _
  boolean _ _ := expresses_boolean.orNull _
  null _ _ := (expresses_null.orNull _).congr fun _ _ => by
    rw [Schema.Admits]
    exact ⟨fun either => either.elim And.right id, Or.inr⟩
  emptyObject impossible := impossible.elim
  dictionary _ _ _ impossible := impossible.elim
  literalObject _ impossible := impossible.elim
  record _ ih plain resolves := (ih plain resolves).record.orNull _
  untypedArray impossible := impossible.elim
  array _ ih plain resolves := (ih plain resolves).array.orNull _
  oneOf _ ih plain resolves := (ih.2 plain.2 resolves).union plain.1
  ref _ _ resolves :=
    (expresses_reference (resolves _ (List.mem_singleton_self _)).2).orNull _
  done := ⟨List.prefix_refl _, fun _ _ => expressesBranches_nil⟩
  skip null ih := by
    refine ⟨ih.1, fun plain resolves => (ih.2 plain.2 ?_).skip null⟩
    intro target member
    exact resolves target (List.mem_append_right _ member)
  next notNull run first rest := by
    refine ⟨(extends_mapValue run).ahead.trans rest.1, fun plain resolves => ?_⟩
    refine (rest.2 plain.2 ?_).next notNull (first plain.1 ?_) rest.1
    · intro target member
      exact resolves target (List.mem_append_right _ member)
    · intro target member
      exact resolves target (List.mem_append_left _ member)

/-- A plain schema whose references are registered and close no cycle is mapped, and the expression
accepts just the values that it admits. -/
theorem exists_mapValue {schema : Schema} (plain : schema.IsPlain)
    (resolves : scope.Resolves schema.refs) (hint path : String) (before : State) :
    ∃ value after, Yields (mapValue scope schema hint path) before value after ∧
      Expresses scope schema.refs after (fun reading => schema.Admits reading)
        value.applyNullable.validator := by
  rcases yields_or_fails (mapValue scope schema hint path) before with
    ⟨value, after, run⟩ | ⟨e, failed⟩
  · exact ⟨value, after, run, faithful_rules.hold schema run plain resolves⟩
  · obtain ⟨-, cited, missing⟩ := refs_of_mapValue_fails schema failed
    exact absurd (resolves _ cited).1 missing

end Mapping

end ZodModules
