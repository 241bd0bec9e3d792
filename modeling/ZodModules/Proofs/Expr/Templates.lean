import ZodModules.Proofs.Expr.MappingEnums
import ZodModules.Proofs.Text.Templates

/-!
# Constants in the texts of expressions

The text of an expression apart from the constants of its enums does not depend on the names of
these, and in mapped values all of them are declared.
-/

namespace ZodModules

open Code (Segment)

namespace Validator

mutual

/-- An expression with other names for the constants of enums. -/
def renameEnums (named : String → String) : Validator → Validator
  | enum constant => enum (named constant)
  | record value => record (value.renameEnums named)
  | array item => array (item.renameEnums named)
  | union members => union (renameAll named members)
  | discriminatedUnion property members => discriminatedUnion property (renameAll named members)
  | object fields => object (renameFields named fields)
  | nullable inner => nullable (inner.renameEnums named)
  | optional inner => optional (inner.renameEnums named)
  | described inner description => described (inner.renameEnums named) description
  | defaulted inner value => defaulted (inner.renameEnums named) value
  | any => any
  | string checks => string checks
  | literal value => literal value
  | number checks => number checks
  | boolean => boolean
  | null => null
  | symbol name => symbol name

/-- Some expressions with other names for the constants of enums. -/
def renameAll (named : String → String) : List Validator → List Validator
  | [] => []
  | member :: members => member.renameEnums named :: renameAll named members

/-- The expressions of some fields with other names for the constants of enums. -/
def renameFields (named : String → String) : List (String × Validator) → List (String × Validator)
  | [] => []
  | (name, value) :: fields => (name, value.renameEnums named) :: renameFields named fields

end

/-- The text of an object validator apart from the constants in the texts of its fields. -/
def objectTemplate (indent : String) (fields : List (String × List Segment)) : List Segment :=
  if fields.isEmpty then [.plain "z.object({})".toList]
  else
    .plain "z.object(\x7b\n".toList ::
      (Code.separated ",\n" (fields.map fun field =>
          .plain (indent ++ Naming.propertyKey field.1 ++ ": ").toList :: field.2) ++
        [.plain "\n\x7d)".toList])

mutual

/-- The text of an expression apart from the constants in it. -/
def template (indent : String) : Validator → List Segment
  | enum constant => [.enum constant]
  | record value =>
    .plain "z.record(z.string(), ".toList :: (value.template indent ++ [.plain [')']])
  | array item => .plain "z.array(".toList :: (item.template indent ++ [.plain [')']])
  | union members =>
    .plain "z.union([".toList ::
      (Code.separated ", " (templateAll indent members) ++ [.plain "])".toList])
  | discriminatedUnion property members =>
    .plain ("z.discriminatedUnion(" ++ quote property ++ ", [").toList ::
      (Code.separated ", " (templateAll indent members) ++ [.plain "])".toList])
  | object fields => objectTemplate indent (templateFields indent fields)
  | nullable inner => inner.template indent ++ [.plain ".nullable()".toList]
  | optional inner => inner.template indent ++ [.plain ".optional()".toList]
  | described inner description =>
    inner.template indent ++ [.plain (".describe(" ++ quote description ++ ")").toList]
  | defaulted inner value =>
    inner.template indent ++ [.plain (".default(" ++ value.text ++ ")").toList]
  | any => [.plain (text indent any).toList]
  | string checks => [.plain (text indent (string checks)).toList]
  | literal value => [.plain (text indent (literal value)).toList]
  | number checks => [.plain (text indent (number checks)).toList]
  | boolean => [.plain (text indent boolean).toList]
  | null => [.plain (text indent null).toList]
  | symbol name => [.plain name.toList]

/-- The texts of some expressions apart from the constants in them. -/
def templateAll (indent : String) : List Validator → List (List Segment)
  | [] => []
  | member :: members => member.template indent :: templateAll indent members

/-- The texts of the expressions of some fields apart from the constants in them. -/
def templateFields (indent : String) : List (String × Validator) → List (String × List Segment)
  | [] => []
  | (name, value) :: fields => (name, value.template indent) :: templateFields indent fields

end

theorem toList_objectText (named : String → String) (indent : String)
    (fields : List (String × List Segment)) :
    (objectText indent (fields.map fun field =>
        (field.1, String.ofList (Code.render named field.2)))).toList =
      Code.render named (objectTemplate indent fields) := by
  unfold objectText objectTemplate
  rw [List.isEmpty_map]
  by_cases empty : fields.isEmpty
  · rw [if_pos empty, if_pos empty]
    exact (List.append_nil _).symm
  · rw [if_neg empty, if_neg empty]
    have first : Code.render named
        (.plain "z.object(\x7b\n".toList ::
          (Code.separated ",\n" (fields.map fun field =>
              .plain (indent ++ Naming.propertyKey field.1 ++ ": ").toList :: field.2) ++
            [.plain "\n\x7d)".toList])) =
        "z.object(\x7b\n".toList ++
          (Code.render named (Code.separated ",\n" (fields.map fun field =>
              .plain (indent ++ Naming.propertyKey field.1 ++ ": ").toList :: field.2)) ++
            "\n\x7d)".toList) := by
      show _ ++ Code.render named (_ ++ _) = _
      rw [Code.render_append]
      rfl
    rw [first, Code.render_separated, String.toList_append, String.toList_append,
      String.toList_intercalate, List.append_assoc, List.map_map, List.map_map, List.map_map]
    have same (field : String × List Segment) :
        (indent ++ Naming.propertyKey field.1 ++ ": " ++
          String.ofList (Code.render named field.2)).toList =
        Code.render named
          (.plain (indent ++ Naming.propertyKey field.1 ++ ": ").toList :: field.2) := by
      rw [String.toList_append, String.toList_ofList]
      rfl
    simp only [Function.comp_def, same]

theorem toList_between (first middle last : String) :
    (first ++ middle ++ last).toList = first.toList ++ (middle.toList ++ last.toList) := by
  rw [String.toList_append, String.toList_append, List.append_assoc]

mutual

/-- The text of an expression is that of its template, whatever the names of the constants. -/
theorem toList_text (named : String → String) (indent : String) : ∀ validator : Validator,
    ((validator.renameEnums named).text indent).toList =
      Code.render named (validator.template indent)
  | any => (Code.render_plain named _).symm
  | string checks => (Code.render_plain named _).symm
  | literal value => (Code.render_plain named _).symm
  | enum constant => by
    show ("z.enum(" ++ named constant ++ ")").toList = _ ++ []
    rw [toList_between, List.append_nil]
    rfl
  | number checks => (Code.render_plain named _).symm
  | boolean => (Code.render_plain named _).symm
  | null => (Code.render_plain named _).symm
  | record value => by
    show ("z.record(z.string(), " ++ (value.renameEnums named).text indent ++ ")").toList =
      Code.render named
        (.plain "z.record(z.string(), ".toList :: (value.template indent ++ [.plain ")".toList]))
    rw [Code.render_between, toList_between, toList_text named indent value]
  | array item => by
    show ("z.array(" ++ (item.renameEnums named).text indent ++ ")").toList =
      Code.render named (.plain "z.array(".toList :: (item.template indent ++ [.plain ")".toList]))
    rw [Code.render_between, toList_between, toList_text named indent item]
  | union members => by
    show ("z.union([" ++ ", ".intercalate (textAll indent (renameAll named members)) ++
        "])").toList =
      Code.render named (.plain "z.union([".toList ::
        (Code.separated ", " (templateAll indent members) ++ [.plain "])".toList]))
    rw [Code.render_between, toList_between, Code.render_separated, String.toList_intercalate,
      toList_textAll named indent members]
  | discriminatedUnion property members => by
    have shown : ((discriminatedUnion property members).renameEnums named).text indent =
        "z.discriminatedUnion(" ++ quote property ++ ", [" ++
          ", ".intercalate (textAll indent (renameAll named members)) ++ "])" := rfl
    have parts : (discriminatedUnion property members).template indent =
        .plain ("z.discriminatedUnion(" ++ quote property ++ ", [").toList ::
          (Code.separated ", " (templateAll indent members) ++ [.plain "])".toList]) := rfl
    rw [shown, parts, Code.render_between, toList_between, Code.render_separated,
      String.toList_intercalate, toList_textAll named indent members]
  | object fields => by
    show (objectText indent (textFields indent (renameFields named fields))).toList = _
    rw [textFields_rename named indent fields, toList_objectText]
    rfl
  | symbol name => (Code.render_plain named _).symm
  | nullable inner => by
    show ((inner.renameEnums named).text indent ++ ".nullable()").toList =
      Code.render named (inner.template indent ++ [.plain ".nullable()".toList])
    rw [Code.render_before, String.toList_append, toList_text named indent inner]
  | optional inner => by
    show ((inner.renameEnums named).text indent ++ ".optional()").toList =
      Code.render named (inner.template indent ++ [.plain ".optional()".toList])
    rw [Code.render_before, String.toList_append, toList_text named indent inner]
  | described inner description => by
    show ((inner.renameEnums named).text indent ++ ".describe(" ++ quote description ++ ")").toList =
      Code.render named
        (inner.template indent ++ [.plain (".describe(" ++ quote description ++ ")").toList])
    rw [Code.render_before, String.append_assoc, String.append_assoc, String.toList_append,
      toList_text named indent inner, ← String.append_assoc]
  | defaulted inner value => by
    show ((inner.renameEnums named).text indent ++ ".default(" ++ value.text ++ ")").toList =
      Code.render named (inner.template indent ++ [.plain (".default(" ++ value.text ++ ")").toList])
    rw [Code.render_before, String.append_assoc, String.append_assoc, String.toList_append,
      toList_text named indent inner, ← String.append_assoc]

theorem toList_textAll (named : String → String) (indent : String) : ∀ members : List Validator,
    (textAll indent (renameAll named members)).map String.toList =
      (templateAll indent members).map (Code.render named)
  | [] => rfl
  | member :: members => by
    show ((member.renameEnums named).text indent).toList ::
        (textAll indent (renameAll named members)).map String.toList =
      Code.render named (member.template indent) ::
        (templateAll indent members).map (Code.render named)
    rw [toList_text named indent member, toList_textAll named indent members]

theorem textFields_rename (named : String → String) (indent : String) :
    ∀ fields : List (String × Validator),
    textFields indent (renameFields named fields) =
      (templateFields indent fields).map fun field =>
        (field.1, String.ofList (Code.render named field.2))
  | [] => rfl
  | (name, value) :: fields => by
    show (name, (value.renameEnums named).text indent) ::
        textFields indent (renameFields named fields) =
      (name, String.ofList (Code.render named (value.template indent))) ::
        (templateFields indent fields).map _
    rw [textFields_rename named indent fields, ← toList_text named indent value, String.ofList_toList]

end

mutual

theorem renameEnums_id : ∀ validator : Validator, validator.renameEnums id = validator
  | record value => by rw [renameEnums, renameEnums_id value]
  | array item => by rw [renameEnums, renameEnums_id item]
  | union members => by rw [renameEnums, renameAll_id members]
  | discriminatedUnion property members => by rw [renameEnums, renameAll_id members]
  | object fields => by rw [renameEnums, renameFields_id fields]
  | nullable inner => by rw [renameEnums, renameEnums_id inner]
  | optional inner => by rw [renameEnums, renameEnums_id inner]
  | described inner description => by rw [renameEnums, renameEnums_id inner]
  | defaulted inner value => by rw [renameEnums, renameEnums_id inner]
  | enum _ | any | string _ | literal _ | number _ | boolean | null | symbol _ => rfl

theorem renameAll_id : ∀ members : List Validator, renameAll id members = members
  | [] => rfl
  | member :: members => by rw [renameAll, renameEnums_id member, renameAll_id members]

theorem renameFields_id : ∀ fields : List (String × Validator), renameFields id fields = fields
  | [] => rfl
  | (name, value) :: fields => by rw [renameFields, renameEnums_id value, renameFields_id fields]

end

/-- The text of an expression is renamed to that of the expression with its constants renamed exactly
if the text is read that way. -/
theorem rename_text_iff {renamed? : String → Option String} (lengthens : Code.Lengthens renamed?)
    {validator : Validator} {indent : String}
    (identifiers : ∀ constant, .enum constant ∈ validator.template indent →
      Code.IsIdentifier constant.toList) :
    Code.rename renamed? (validator.text indent) =
        (validator.renameEnums (Code.newName renamed?)).text indent ↔
      Code.Reads renamed? .nothing (validator.template indent) := by
  have before := toList_text id indent validator
  rw [renameEnums_id] at before
  rw [← Code.rename_render_iff lengthens identifiers, ← before, String.ofList_toList,
    ← toList_text, String.ofList_toList]

theorem mem_templateAll {constant indent : String} {members : List Validator} :
    (∃ part ∈ templateAll indent members, .enum constant ∈ part) ↔
      ∃ member ∈ members, .enum constant ∈ member.template indent := by
  induction members with
  | nil => simp [templateAll]
  | cons member rest ih =>
    show (∃ part ∈ member.template indent :: templateAll indent rest, _) ↔ _
    rw [List.exists_mem_cons_iff, List.exists_mem_cons_iff, ih]

theorem mem_objectTemplate {constant indent : String} {fields : List (String × Validator)} :
    .enum constant ∈ (object fields).template indent ↔
      ∃ field ∈ fields, .enum constant ∈ field.2.template indent := by
  have lines : ∀ fields : List (String × Validator),
      (∃ part ∈ (templateFields indent fields).map (fun field =>
          Segment.plain (indent ++ Naming.propertyKey field.1 ++ ": ").toList :: field.2),
        .enum constant ∈ part) ↔ ∃ field ∈ fields, .enum constant ∈ field.2.template indent := by
    intro fields
    induction fields with
    | nil => simp [templateFields]
    | cons field rest ih =>
      show (∃ part ∈ (Segment.plain _ :: field.2.template indent) ::
        (templateFields indent rest).map _, _) ↔ _
      rw [List.exists_mem_cons_iff, List.exists_mem_cons_iff, ih, List.mem_cons]
      simp
  show _ ∈ objectTemplate indent (templateFields indent fields) ↔ _
  unfold objectTemplate
  cases fields with
  | nil => simp [templateFields]
  | cons field rest =>
    have filled : ¬ (templateFields indent (field :: rest)).isEmpty := Bool.false_ne_true
    rw [← lines, if_neg filled, Code.mem_between, Code.mem_separated]

theorem mem_template_orNull {constant indent : String} {flag : Bool} {validator : Validator} :
    .enum constant ∈ (validator.orNull flag).template indent ↔
      .enum constant ∈ validator.template indent := by
  cases flag with
  | false => rfl
  | true => exact Code.mem_before

theorem mem_template_describe? {constant indent : String} {description : Option String}
    {validator : Validator} :
    .enum constant ∈ (validator.describe? description).template indent ↔
      .enum constant ∈ validator.template indent := by
  cases description with
  | none => rfl
  | some text => exact Code.mem_before

end Validator

namespace Mapping

variable {scope : Scope}

/-- Whether the constants in the text of an expression are declared in a state. -/
def Declares (state : State) (validator : Validator) : Prop :=
  ∀ indent constant, .enum constant ∈ validator.template indent →
    ∃ known ∈ state.enums, known.constant = constant

theorem Declares.mono {before after : State} {validator : Validator}
    (h : Declares before validator) (ahead : before.enums <+: after.enums) :
    Declares after validator := by
  intro indent constant member
  obtain ⟨known, inside, same⟩ := h indent constant member
  exact ⟨known, ahead.subset inside, same⟩

theorem Declares.of_eq {state : State} {validator other : Validator} (h : Declares state validator)
    (same : ∀ indent constant, Segment.enum constant ∈ other.template indent ↔
      .enum constant ∈ validator.template indent) : Declares state other := by
  intro indent constant member
  exact h indent constant ((same indent constant).1 member)

theorem declares_of_plain {state : State} {validator : Validator} (text : String → List Char)
    (plain : ∀ indent, validator.template indent = [.plain (text indent)]) :
    Declares state validator := by
  intro indent constant member
  rw [plain, List.mem_singleton] at member
  cases member

theorem declares_mapString {facets : Schema.StringFacets} {hint : String} {before after : State}
    {value : Mapped} (run : Yields (mapString scope facets hint) before value after) :
    Declares after value.validator := by
  rcases yields_mapString run with ⟨-, rfl, rfl⟩ | ⟨literal, -, rfl, rfl⟩ | ⟨-, rfl, rfl⟩
  · exact declares_of_plain _ fun _ => rfl
  · exact declares_of_plain _ fun _ => rfl
  · intro indent constant member
    have same : constant = (fitted before.enums (enumOf scope facets.literals hint)).constant := by
      have only := List.mem_singleton.1 member
      cases only
      rfl
    obtain ⟨known, found, -⟩ := declared?_declare before (enumOf scope facets.literals hint)
    obtain ⟨inside, named⟩ := constant_of_declared? found
    exact ⟨known, inside, named.trans same.symm⟩

theorem declares_unionOf {state : State} {discriminator : Option String} {values : List Mapped}
    (all : ∀ value ∈ values, Declares state value.validator) :
    Declares state (unionOf scope discriminator values).validator := by
  rcases values with _ | ⟨first, _ | ⟨second, rest⟩⟩
  · exact declares_of_plain _ fun _ => rfl
  · exact all first List.mem_cons_self
  · intro indent constant member
    have inside : ∃ value ∈ first :: second :: rest,
        .enum constant ∈ value.applyNullable.validator.template indent := by
      have parts : .enum constant ∈ Code.separated ", " (Validator.templateAll indent
          (((first :: second :: rest).map Mapped.applyNullable).map (·.validator))) := by
        unfold unionOf at member
        dsimp only at member
        split at member
        · exact Code.mem_between.1 member
        · split at member
          · exact Code.mem_between.1 member
          · exact Code.mem_between.1 member
      rw [Code.mem_separated, Validator.mem_templateAll] at parts
      obtain ⟨_, listed, uses⟩ := parts
      rw [List.map_map] at listed
      obtain ⟨value, inside, rfl⟩ := List.mem_map.1 listed
      exact ⟨value, inside, uses⟩
    obtain ⟨value, inside, uses⟩ := inside
    exact all value inside indent constant (Validator.mem_template_orNull.1 uses)

theorem declares_reference {state : State} {target : String} :
    Declares state
      (if scope.closes target then .any
        else .symbol (Naming.validatorName target scope.validatorSuffix)) := by
  split
  · exact declares_of_plain _ fun _ => rfl
  · exact declares_of_plain _ fun _ => rfl

theorem declares_rules : Rules scope (fun _ _ _ _ value after => Declares after value.validator)
    (fun _ _ _ _ _ before values after => before.enums <+: after.enums ∧
      ∀ value ∈ values, Declares after value.validator) where
  string run := (declares_mapString run).of_eq fun _ _ => Iff.rfl
  number := declares_of_plain _ fun _ => rfl
  boolean := declares_of_plain _ fun _ => rfl
  null := declares_of_plain _ fun _ => rfl
  emptyObject := declares_of_plain _ fun _ => rfl
  dictionary _ _ ih := ih.of_eq fun _ _ => Code.mem_between.trans Validator.mem_template_orNull
  literalObject _ := declares_of_plain _ fun _ => rfl
  record _ ih := ih.of_eq fun _ _ => Code.mem_between.trans Validator.mem_template_orNull
  untypedArray :=
    (declares_of_plain (fun _ => "z.any()".toList) fun _ => rfl : Declares _ .any).of_eq
      fun _ _ => Code.mem_between
  array _ ih := ih.of_eq fun _ _ => Code.mem_between.trans Validator.mem_template_orNull
  oneOf _ ih := declares_unionOf ih.2
  ref _ := declares_reference
  done := ⟨List.prefix_refl _, fun value member => absurd member List.not_mem_nil⟩
  skip _ ih := ih
  next _ run first rest := by
    refine ⟨(extends_mapValue run).ahead.trans rest.1, ?_⟩
    rw [List.forall_mem_cons]
    exact ⟨first.mono rest.1, rest.2⟩

theorem declares_mapValue {schema : Schema} {hint path : String} {before after : State}
    {value : Mapped} (run : Yields (mapValue scope schema hint path) before value after) :
    Declares after value.validator :=
  declares_rules.hold schema run

end Mapping

end ZodModules
