import ZodModules.Proofs.Expr.MappingEnums

/-!
# The values that schemas and validators stand for

Which JSON values a schema admits and which ones a validator expression accepts. What neither of
them settles is a parameter of both: the unit of lengths, the value that a number is taken for, the
formats and patterns of strings, and the values of what is referred to.
-/

namespace ZodModules

open Model (EnumDeclaration)

/-- The exact value of a finite number. -/
def Binary64.toRat (x : Binary64) : Rat :=
  let scaled : Int := (x.significand * Nat.pow 2 x.exponent.toNat : Nat)
  mkRat (if x.negative then -scaled else scaled) (Nat.pow 2 (-x.exponent).toNat)

/-- How strings and numbers are measured, and what names stand for. -/
structure Reading where
  /-- The length of a string, in the unit in which lengths are counted. -/
  length : String → Nat
  /-- The value of a number, exact or rounded when it is read. -/
  quantity : Json.Number → Rat
  format : StringFormat → String → Prop
  pattern : String → String → Prop
  /-- The values of the schema registered under a name. -/
  schema : String → Json → Prop
  /-- The values that the validator declared under a name accepts. -/
  symbol : String → Json → Prop

namespace Schema

/-- Whether a string is one of the literals or, if none are listed, as asked for. -/
def StringFacets.Admits (reading : Reading) (facets : StringFacets) (text : String) : Prop :=
  if facets.literals = [] then
    (∀ least, facets.minLength = some least → least ≤ reading.length text) ∧
      (∀ most, facets.maxLength = some most → reading.length text ≤ most) ∧
      (∀ format, facets.format.bind StringFormat.ofName? = some format →
        reading.format format text) ∧
      ∀ pattern, facets.pattern = some pattern → ¬ pattern.isEmpty → reading.pattern pattern text
  else text ∈ facets.literals

/-- Whether a number is as asked for. -/
def NumberFacets.Admits (facets : NumberFacets) (quantity : Rat) : Prop :=
  (facets.integer → quantity.den = 1) ∧
    (∀ bound, facets.minimum = some bound → bound.toRat ≤ quantity) ∧
    ∀ bound, facets.maximum = some bound → quantity ≤ bound.toRat

mutual

/-- The values that a schema admits. A union without branches admits what the kind `null` does. -/
def Admits (reading : Reading) : Schema → Json → Prop
  | ⟨.string facets, metadata⟩, value =>
    (metadata.nullable ∧ value = .null) ∨ ∃ text, value = .string text ∧ facets.Admits reading text
  | ⟨.number facets, metadata⟩, value =>
    (metadata.nullable ∧ value = .null) ∨
      ∃ number, value = .number number ∧ facets.Admits (reading.quantity number)
  | ⟨.boolean, metadata⟩, value => (metadata.nullable ∧ value = .null) ∨ ∃ b, value = .bool b
  | ⟨.null, _⟩, value => value = .null
  | ⟨.object properties required, metadata⟩, value =>
    (metadata.nullable ∧ value = .null) ∨
      ∃ members, value = .object members ∧ AllAdmit reading required members properties
  | ⟨.record item, metadata⟩, value =>
    (metadata.nullable ∧ value = .null) ∨
      ∃ members, value = .object members ∧ ∀ member ∈ members, item.Admits reading member.2
  | ⟨.array none, metadata⟩, value =>
    (metadata.nullable ∧ value = .null) ∨ ∃ items, value = .array items
  | ⟨.array (some item), metadata⟩, value =>
    (metadata.nullable ∧ value = .null) ∨
      ∃ items, value = .array items ∧ ∀ value ∈ items, item.Admits reading value
  | ⟨.oneOf branches _, metadata⟩, value =>
    (metadata.nullable ∧ value = .null) ∨ (branches = [] ∧ value = .null) ∨
      SomeAdmits reading value branches
  | ⟨.ref target, metadata⟩, value =>
    (metadata.nullable ∧ value = .null) ∨ reading.schema target value

/-- Whether the members of an object are as its properties ask for; others may stand beside them. -/
def AllAdmit (reading : Reading) (required : NameSet) (members : List (String × Json)) :
    List (Property Schema) → Prop
  | [] => True
  | ⟨name, schema⟩ :: rest =>
    ((members.lookup name = none → required.contains name = false) ∧
      ∀ value, members.lookup name = some value → schema.Admits reading value) ∧
    AllAdmit reading required members rest

/-- Whether one of the branches of a union admits a value. -/
def SomeAdmits (reading : Reading) (value : Json) : List Schema → Prop
  | [] => False
  | branch :: branches => branch.Admits reading value ∨ SomeAdmits reading value branches

end

variable {reading : Reading}

theorem allAdmit_iff {required : NameSet} {members : List (String × Json)}
    {properties : List (Property Schema)} :
    AllAdmit reading required members properties ↔
      ∀ property ∈ properties,
        (members.lookup property.name = none → required.contains property.name = false) ∧
          ∀ value, members.lookup property.name = some value →
            property.schema.Admits reading value := by
  induction properties with
  | nil => simp [AllAdmit]
  | cons property rest ih =>
    rw [AllAdmit, ih, List.forall_mem_cons]

theorem someAdmits_iff {value : Json} {branches : List Schema} :
    SomeAdmits reading value branches ↔ ∃ branch ∈ branches, branch.Admits reading value := by
  induction branches with
  | nil => simp [SomeAdmits]
  | cons branch rest ih =>
    simp [SomeAdmits, ih]

end Schema

/-- Whether a string passes a check. -/
def StringCheck.Passes (reading : Reading) (text : String) : StringCheck → Prop
  | .format f => reading.format f text
  | .min least => least ≤ reading.length text
  | .max most => reading.length text ≤ most
  | .regex pattern => reading.pattern pattern text

/-- Whether a number passes a check. -/
def NumberCheck.Passes (quantity : Rat) : NumberCheck → Prop
  | .int => quantity.den = 1
  | .min bound => bound.toRat ≤ quantity
  | .max bound => quantity ≤ bound.toRat

namespace Validator

mutual

/-- The values that an expression accepts next to some enums; a property that is left out gives none.
The members of a union that a property tells apart ask for distinct literals of it, so that it
accepts what the plain union does. -/
def Accepts (reading : Reading) (enums : List EnumDeclaration) : Validator → Option Json → Prop
  | any, _ => True
  | string checks, given =>
    ∃ text, given = some (.string text) ∧ ∀ check ∈ checks, check.Passes reading text
  | literal value, given => given = some (.string value)
  | enum constant, given =>
    ∃ known text, Mapping.declared? enums constant = some known ∧ given = some (.string text) ∧
      text ∈ known.values
  | number checks, given =>
    ∃ number, given = some (.number number) ∧
      ∀ check ∈ checks, check.Passes (reading.quantity number)
  | boolean, given => ∃ b, given = some (.bool b)
  | null, given => given = some .null
  | record item, given =>
    ∃ members, given = some (.object members) ∧
      ∀ member ∈ members, item.Accepts reading enums (some member.2)
  | array item, given =>
    ∃ items, given = some (.array items) ∧ ∀ value ∈ items, item.Accepts reading enums (some value)
  | union members, given => SomeAccepts reading enums given members
  | discriminatedUnion _ members, given => SomeAccepts reading enums given members
  | object fields, given =>
    ∃ members, given = some (.object members) ∧ AllAccept reading enums members fields
  | symbol name, given => ∃ value, given = some value ∧ reading.symbol name value
  | nullable inner, given => given = some .null ∨ inner.Accepts reading enums given
  | optional inner, given => given = none ∨ inner.Accepts reading enums given
  | described inner _, given => inner.Accepts reading enums given
  | defaulted inner _, given => given = none ∨ inner.Accepts reading enums given

/-- Whether one of some expressions accepts a value. -/
def SomeAccepts (reading : Reading) (enums : List EnumDeclaration) (given : Option Json) :
    List Validator → Prop
  | [] => False
  | member :: members =>
    member.Accepts reading enums given ∨ SomeAccepts reading enums given members

/-- Whether each field accepts the member of an object under its name, or that there is none. -/
def AllAccept (reading : Reading) (enums : List EnumDeclaration) (members : List (String × Json)) :
    List (String × Validator) → Prop
  | [] => True
  | (name, value) :: fields =>
    value.Accepts reading enums (members.lookup name) ∧ AllAccept reading enums members fields

end

mutual

/-- Whether an expression is built from the constructs below only, with distinct names of fields. -/
def IsPlain : Validator → Prop
  | string checks => ∀ check ∈ checks, ∃ length, check = .min length ∨ check = .max length
  | literal _ | enum _ | number _ | boolean | null | symbol _ => True
  | record item | array item => item.IsPlain
  | union members => ArePlain members
  | object fields => (fields.map Prod.fst).Nodup ∧ FieldsArePlain fields
  | nullable inner | optional inner | described inner _ => inner.IsPlain
  | any | discriminatedUnion _ _ | defaulted _ _ => False

/-- Whether some expressions are all plain. -/
def ArePlain : List Validator → Prop
  | [] => True
  | member :: members => member.IsPlain ∧ ArePlain members

/-- Whether the expressions of some fields are all plain. -/
def FieldsArePlain : List (String × Validator) → Prop
  | [] => True
  | (_, value) :: fields => value.IsPlain ∧ FieldsArePlain fields

end

variable {reading : Reading} {enums : List EnumDeclaration}

theorem someAccepts_iff {given : Option Json} {members : List Validator} :
    SomeAccepts reading enums given members ↔
      ∃ member ∈ members, member.Accepts reading enums given := by
  induction members with
  | nil => simp [SomeAccepts]
  | cons member rest ih =>
    simp [SomeAccepts, ih]

theorem allAccept_iff {members : List (String × Json)} {fields : List (String × Validator)} :
    AllAccept reading enums members fields ↔
      ∀ field ∈ fields, field.2.Accepts reading enums (members.lookup field.1) := by
  induction fields with
  | nil => simp [AllAccept]
  | cons field rest ih =>
    rw [AllAccept, ih, List.forall_mem_cons]

theorem arePlain_iff {members : List Validator} :
    ArePlain members ↔ ∀ member ∈ members, member.IsPlain := by
  induction members with
  | nil => simp [ArePlain]
  | cons member rest ih =>
    rw [ArePlain, ih, List.forall_mem_cons]

theorem fieldsArePlain_iff {fields : List (String × Validator)} :
    FieldsArePlain fields ↔ ∀ field ∈ fields, field.2.IsPlain := by
  induction fields with
  | nil => simp [FieldsArePlain]
  | cons field rest ih =>
    rw [FieldsArePlain, ih, List.forall_mem_cons]

theorem accepts_orNull {flag : Bool} {validator : Validator} {given : Option Json} :
    (validator.orNull flag).Accepts reading enums given ↔
      validator.Accepts reading enums given ∨ (flag ∧ given = some .null) := by
  cases flag with
  | false => simp [orNull]
  | true => simp [orNull, Accepts, or_comm]

@[simp] theorem isPlain_orNull {flag : Bool} {validator : Validator} :
    (validator.orNull flag).IsPlain ↔ validator.IsPlain := by
  cases flag with
  | false => rfl
  | true => simp [orNull, IsPlain]

@[simp] theorem accepts_describe? {description : Option String} {validator : Validator}
    {given : Option Json} :
    (validator.describe? description).Accepts reading enums given ↔
      validator.Accepts reading enums given := by
  cases description with
  | none => rfl
  | some text => simp [describe?, Accepts]

@[simp] theorem isPlain_describe? {description : Option String} {validator : Validator} :
    (validator.describe? description).IsPlain ↔ validator.IsPlain := by
  cases description with
  | none => rfl
  | some text => simp [describe?, IsPlain]

end Validator

end ZodModules
