import ZodModules.Proofs.Generation.Roots
import ZodModules.Proofs.Meaning.Mapping

/-!
# What generated validators accept

The validator of a schema is the text of an expression that accepts just the values of the schema,
for values that are mapped on the way as for whole schemas.
-/

namespace ZodModules

/-- Whether a schema is an object of distinct properties with plain schemas and without defaults. -/
def Schema.IsPlainObject (schema : Schema) : Prop :=
  ∃ properties required, schema.kind = .object properties required ∧
    (properties.map (·.name)).Nodup ∧
    ∀ property ∈ properties, property.schema.IsPlain ∧ property.schema.metadata.default? = none

namespace Generation

open Mapping
open Model (EnumDeclaration)

variable {scope : Scope} {indent : String} {required : NameSet} {state : State}

/-- A description does not change what is accepted. -/
theorem expresses_describe? {cited : List String} {admits : Reading → Json → Prop}
    {validator : Validator} {flag : Bool}
    (h : Expresses scope cited state admits (validator.orNull flag)) (description : Option String) :
    Expresses scope cited state admits ((validator.describe? description).orNull flag) := by
  have plain := Validator.isPlain_orNull.1 h.plain
  refine ⟨Validator.isPlain_orNull.2 (Validator.isPlain_describe?.2 plain), ?_⟩
  intro reading enums ahead agrees given
  rw [← h.accepts ahead agrees, Validator.accepts_orNull, Validator.accepts_orNull,
    Validator.accepts_describe?]

section Property

variable {cited : List String} {admits : Reading → Json → Prop} {value : Mapped}
  {metadata : Schema.Metadata} {isRequired : Bool}

theorem isPlain_propertyValidator (default : metadata.default? = none)
    (plain : value.applyNullable.validator.IsPlain) :
    (propertyValidator value metadata isRequired).IsPlain := by
  have inner : value.validator.IsPlain := Validator.isPlain_orNull.1 plain
  unfold propertyValidator
  rw [default, Validator.isPlain_orNull, Validator.isPlain_describe?]
  cases isRequired with
  | false => exact inner
  | true => exact inner

/-- The expression of a property accepts what its schema admits, and that it is left out unless it is
required. -/
theorem accepts_propertyValidator {reading : Reading} {enums : List EnumDeclaration}
    (default : metadata.default? = none)
    (h : Expresses scope cited state admits value.applyNullable.validator)
    (ahead : state.enums <+: enums) (agrees : scope.Agrees cited reading) {given : Option Json} :
    (propertyValidator value metadata isRequired).Accepts reading enums given ↔
      (given = none → isRequired = false) ∧ ∀ json, given = some json → admits reading json := by
  have accepts := h.accepts ahead agrees given
  change (value.validator.orNull value.nullable).Accepts _ _ given ↔ _ at accepts
  rw [Validator.accepts_orNull] at accepts
  unfold propertyValidator
  rw [default, Validator.accepts_orNull, Validator.accepts_describe?]
  have missing : (if isRequired = true then value.validator else value.validator.optional).Accepts
      reading enums given ↔
        (given = none ∧ isRequired = false) ∨ value.validator.Accepts reading enums given := by
    cases isRequired with
    | false => simp [Validator.Accepts]
    | true => simp
  rw [missing, or_assoc, accepts]
  cases given with
  | none => simp
  | some json => simp

end Property

/-- The fields of some properties accept just the members that the properties ask for. -/
structure FieldsExpress (scope : Scope) (required : NameSet)
    (properties : List (Schema.Property Schema)) (state : State)
    (fields : List (String × Validator)) : Prop where
  names : fields.map Prod.fst = properties.map (·.name)
  plain : Validator.FieldsArePlain fields
  accepts : ∀ {reading : Reading} {enums : List EnumDeclaration}, state.enums <+: enums →
    scope.Agrees (Schema.propertyRefs properties) reading → ∀ members,
      Validator.AllAccept reading enums members fields ↔
        Schema.AllAdmit reading required members properties

/-- The fields of an object whose properties map to some values. -/
def fieldsOf (indent : String) (required : NameSet) (properties : List (Schema.Property Schema))
    (values : List Mapped) : List (String × Validator) :=
  (List.zipWith (fieldOf indent required) properties values).map fun field =>
    (field.2.name, field.1)

theorem fieldsExpress_of_threads {properties : List (Schema.Property Schema)}
    {before after : State} {values : List Mapped}
    (threads : Threads scope properties before values after)
    (plain : ∀ property ∈ properties,
      property.schema.IsPlain ∧ property.schema.metadata.default? = none)
    (resolves : scope.Resolves (Schema.propertyRefs properties)) :
    before.enums <+: after.enums ∧
      FieldsExpress scope required properties after
        (fieldsOf indent required properties values) := by
  induction threads with
  | nil => exact ⟨List.prefix_refl _, rfl, trivial, fun _ _ _ => Iff.rfl⟩
  | @cons property rest before middle after value values first others ih =>
    rw [List.forall_mem_cons] at plain
    obtain ⟨⟨plain, default⟩, others_plain⟩ := plain
    have own : scope.Resolves property.schema.refs := fun target member =>
      resolves target (List.mem_append_left _ member)
    have further : scope.Resolves (Schema.propertyRefs rest) := fun target member =>
      resolves target (List.mem_append_right _ member)
    obtain ⟨ahead, ih⟩ := ih others_plain further
    have expresses := (faithful_rules.hold property.schema first plain own).later ahead
    refine ⟨(extends_mapValue first).ahead.trans ahead, ?_, ?_, ?_⟩
    · exact congrArg (property.name :: ·) ih.names
    · exact ⟨isPlain_propertyValidator default expresses.plain, ih.plain⟩
    · intro reading enums longer agrees members
      have cited := fun target member => agrees target (List.mem_append_left _ member)
      have tail := ih.accepts longer
        (fun target member => agrees target (List.mem_append_right _ member)) members
      exact and_congr (accepts_propertyValidator default expresses longer cited) tail

theorem expresses_rootValidator_of_object {properties : List (Schema.Property Schema)}
    {metadata : Schema.Metadata} {values : List Mapped}
    (distinct : (properties.map (·.name)).Nodup)
    (h : FieldsExpress scope required properties state (fieldsOf indent required properties values)) :
    Expresses scope (Schema.propertyRefs properties) state
      (fun reading => (Schema.mk (.object properties required) metadata).Admits reading)
      (rootValidator ⟨.object properties required, metadata⟩
        (objectRoot indent metadata (List.zipWith (fieldOf indent required) properties values))) := by
  refine expresses_describe? ?_ _
  refine ⟨Validator.isPlain_orNull.2 ⟨h.names ▸ distinct, h.plain⟩, ?_⟩
  intro reading enums ahead agrees given
  have accepts := h.accepts ahead agrees
  rw [Validator.accepts_orNull]
  change (∃ members, given = some (.object members) ∧ Validator.AllAccept reading enums members
    (fieldsOf indent required properties values)) ∨ (metadata.nullable ∧ given = some .null) ↔ _
  simp only [accepts, Schema.Admits]
  constructor
  · rintro (⟨members, rfl, all⟩ | ⟨nullable, rfl⟩)
    · exact ⟨.object members, rfl, Or.inr ⟨members, rfl, all⟩⟩
    · exact ⟨.null, rfl, Or.inl ⟨nullable, rfl⟩⟩
  · rintro ⟨json, rfl, ⟨nullable, rfl⟩ | ⟨members, rfl, all⟩⟩
    · exact Or.inr ⟨nullable, rfl⟩
    · exact Or.inl ⟨members, rfl, all⟩

/-- A plain schema is no object. -/
theorem not_isObject_of_isPlain {schema : Schema} (plain : schema.IsPlain) : ¬ isObject schema := by
  obtain ⟨kind, metadata⟩ := schema
  cases kind with
  | object properties required => exact plain.elim
  | _ => exact Bool.false_ne_true

/-- The expression that is generated for a plain schema or an object of such accepts just the values
that the schema admits. -/
theorem expresses_rootValidator {schema : Schema} {root : Root} {before after : State}
    (plain : schema.IsPlain ∨ schema.IsPlainObject) (resolves : scope.Resolves schema.refs)
    (run : Yields (generateRoot scope indent schema) before root after) :
    Expresses scope schema.refs after (fun reading => schema.Admits reading)
      (rootValidator schema root) := by
  rcases plain with plain | object
  · obtain ⟨value, mapped, rfl⟩ :=
      (yields_valueRoot (not_isObject_of_isPlain plain)).1 run
    exact expresses_describe? (faithful_rules.hold schema mapped plain resolves) _
  · obtain ⟨kind, metadata⟩ := schema
    obtain ⟨properties, required, rfl, distinct, plain⟩ := object
    obtain ⟨values, threads, rfl⟩ := yields_objectRoot.1 run
    exact expresses_rootValidator_of_object distinct
      (fieldsExpress_of_threads threads plain resolves).2

/-- A text is that of a plain expression that accepts just the values of a schema, with its enums
read among the given ones and its references in any way that their validators share. -/
def Means (scope : Scope) (indent : String) (enums : List EnumDeclaration) (text : String)
    (schema : Schema) : Prop :=
  ∃ expression : Validator, expression.IsPlain ∧ expression.text indent = text ∧
    ∀ reading : Reading, scope.Agrees schema.refs reading → ∀ given,
      expression.Accepts reading enums given ↔
        ∃ value, given = some value ∧ schema.Admits reading value

theorem means_of_expresses {schema : Schema} {validator : Validator} {enums : List EnumDeclaration}
    (h : Expresses scope schema.refs state (fun reading => schema.Admits reading) validator)
    (ahead : state.enums <+: enums) :
    Means scope indent enums (validator.text indent) schema :=
  ⟨validator, h.plain, rfl, fun _ agrees => h.accepts ahead agrees⟩

/-- Validators mean what the schemas mean. A plain schema that is mapped on the way, after whatever
was mapped for the owner before, has a validator of that meaning next to all enums declared in the
end; so has the model of a plain schema or an object of such. -/
theorem validators_mean_schemas :
    (∀ (scope : Scope) (schema : Schema), schema.IsPlain → scope.Resolves schema.refs →
      ∀ (hint path indent : String) (before : State), ∃ value after,
        Yields (mapNested scope schema hint path) before value after ∧
          ∀ enums, after.enums <+: enums →
            Means scope indent enums (value.validator.text indent) schema) ∧
    ∀ (config : Config) (name : String) (schema : Schema) (registry : Registry)
      (closures : ClosureIndex),
      schema.IsPlain ∨ schema.IsPlainObject →
      (scopeOf config name registry closures).Resolves schema.refs →
      ∃ generated, generate config name schema registry closures = .ok generated ∧
        Means (scopeOf config name registry closures) config.indent.text generated.model.enums
          generated.model.validator schema := by
  constructor
  · intro scope schema plain resolves hint path indent before
    obtain ⟨value, after, run, expresses⟩ := exists_mapValue plain resolves hint path before
    refine ⟨value.applyNullable, after, ?_, fun enums ahead => means_of_expresses expresses ahead⟩
    exact yields_bind.2 ⟨value, after, run, yields_pure.2 ⟨rfl, rfl⟩⟩
  · intro config name schema registry closures plain resolves
    obtain ⟨generated, ok⟩ := exists_generate config name closures fun target member =>
      (resolves target member).1
    refine ⟨generated, ok, ?_⟩
    obtain ⟨root, state, run, rfl⟩ := generate_eq_ok_iff.1 ok
    exact means_of_expresses (expresses_rootValidator plain resolves run) (List.prefix_refl _)

/-- An account with a team or none, and with any of two roles. -/
def account : Schema :=
  .ofKind (.object
    [⟨"team", .ofKind (.oneOf [.ofKind (.ref "Team"), .ofKind .null] none)⟩,
      ⟨"roles", .ofKind (.array (some (.ofKind (.string { literals := ["reader", "editor"] }))))⟩]
    (.ofList ["roles"]))

/-- A registry of accounts and teams. -/
def directory : Registry := .ofList [("Account", account), ("Team", .ofKind (.string {}))]

/-- What accounts and teams reach. -/
def directoryClosures : ClosureIndex :=
  ⟨.ofList [("Account", .ok (.ofList ["Team"])), ("Team", .ok ∅)]⟩

/-- The validator of an account means what its schema means. -/
theorem means_account :
    ∃ generated, generate {} "Account" account directory directoryClosures = .ok generated ∧
      Means (scopeOf {} "Account" directory directoryClosures) "  " generated.model.enums
        generated.model.validator account := by
  refine validators_mean_schemas.2 {} "Account" account _ _ (Or.inr ?_) ?_
  · exact ⟨_, _, rfl, by decide, by simp [Schema.IsPlain, Schema.ArePlain, Schema.ofKind]⟩
  · intro target member
    rw [List.mem_singleton.1 member]
    decide

end Generation

end ZodModules
