import ZodModules.Expr.Validator
import ZodModules.Expr.Type
import ZodModules.Model.Basic
import ZodModules.Diagnostic

/-!
# Mapping schemas to expressions

Every schema that stands for a value maps to a validator and a type side by side. What else comes
up on the way is kept in a `Mapping.State`: the enums that need a declaration, the schemas referred
to, and what could not be expressed. A reference that leads back to the schema in whose declaration
it stands would be used before it is declared, so it accepts any value.
-/

namespace ZodModules.Mapping

/-- The schema whose declarations are generated, and what its references mean. -/
structure Scope where
  owner : String
  registry : Registry
  closures : ClosureIndex
  validatorSuffix : String
  /-- Whether declared validators have a spelled-out type, which hides that they are objects. -/
  explicitTyping : Bool

/-- What mapping leaves besides expressions. -/
structure State where
  enums : List Model.EnumDeclaration := []
  references : List String := []
  diagnostics : List Diagnostic := []
  /-- Whether a reference closed a cycle. -/
  recursive : Bool := false

instance : EmptyCollection State := ⟨{}⟩

/-- A value's expressions. Neither shows whether the value itself may be `null`. -/
structure Mapped where
  validator : Validator
  type : TypeExpr
  nullable : Bool := false
  shape : Shape

/-- Expressions that may show that the value may be `null`. -/
def Mapped.applyNullable (value : Mapped) : Mapped :=
  { value with
    validator := value.validator.orNull value.nullable
    type := value.type.nullable value.nullable
    nullable := false }

/-- A step of mapping: what is noted stays noted also if the step fails. -/
abbrev MapM := ExceptT ResolutionError (StateM State)

/-- Notes a reference to another schema. -/
def noteReference (scope : Scope) (target : String) : MapM Unit :=
  modify fun state =>
    if target = scope.owner ∨ target ∈ state.references then state
    else { state with references := state.references ++ [target] }

/-- Notes a shape that no validator expresses. -/
def noteUnsupported (scope : Scope) (path shape : String) : MapM Unit :=
  modify fun state =>
    { state with diagnostics := state.diagnostics ++ [.shape ⟨scope.owner, path, shape⟩] }

/-- Notes a reference that closes a cycle. -/
def noteRecursion (scope : Scope) (target : String) : MapM Unit :=
  modify fun state =>
    { state with
      recursive := true
      diagnostics := state.diagnostics ++ [.recursion scope.owner target] }

/-- Whether an enum can be declared next to others: its constant is new or lists the same values. -/
def fits (enums : List Model.EnumDeclaration) (declaration : Model.EnumDeclaration) : Bool :=
  match enums.find? (·.constant == declaration.constant) with
  | none => true
  | some known => known.values == declaration.values

/-- An enum under the least number with which it fits next to others. Each number that does not fit
takes up one of them, so one past their count is enough. -/
def fitted (enums : List Model.EnumDeclaration) (declaration : Model.EnumDeclaration) :
    Model.EnumDeclaration :=
  let last := enums.length + 1
  declaration.numbered
    (((List.range' 1 last).find? fun n => fits enums (declaration.numbered n)).getD last)

/-- Declares an enum unless its constant is declared already, and tells its final names. -/
def declareEnum (declaration : Model.EnumDeclaration) : MapM Model.EnumDeclaration := do
  let state ← get
  let final := fitted state.enums declaration
  if state.enums.any (·.constant == final.constant) then return final
  else
    set { state with enums := state.enums ++ [final] }
    return final

/-- The path of a part of the value at a path. -/
def childPath (path segment : String) : String :=
  if path.isEmpty then segment else path ++ "." ++ segment

/-- The checks on strings without literals. -/
def stringChecks (facets : Schema.StringFacets) : List StringCheck :=
  ((facets.format.bind StringFormat.ofName?).map .format).toList ++
    (facets.minLength.map .min).toList ++
    (facets.maxLength.map .max).toList ++
    ((facets.pattern.filter (!·.isEmpty)).map .regex).toList

/-- The checks on numbers. -/
def numberChecks (facets : Schema.NumberFacets) : List NumberCheck :=
  (if facets.integer then [.int] else []) ++
    (facets.minimum.map .min).toList ++
    (facets.maximum.map .max).toList

/-- Maps a string. Several literals are declared as an enum, named after the owner and the hint. -/
def mapString (scope : Scope) (facets : Schema.StringFacets) (hint : String) : MapM Mapped :=
  match facets.literals with
  | [] =>
    return { validator := .string (stringChecks facets), type := .string, shape := .scalar .string }
  | [value] =>
    return { validator := .literal value, type := .literal value, shape := .literal value }
  | values => do
    let declaration ← declareEnum
      { constant := Naming.enumConstantName scope.owner hint
        type := if hint.isEmpty then none else some (Naming.enumTypeName scope.owner hint)
        values := values }
    return {
      validator := .enum declaration.constant
      type := (declaration.type.map .named).getD (.elementOf declaration.constant)
      shape := .enum declaration.constant }

/-- Maps a reference. -/
def mapReference (scope : Scope) (target : String) : MapM Mapped :=
  match scope.registry.get? target with
  | none => throw ⟨scope.owner, target⟩
  | some schema => do
    let isObject := match schema.kind with
      | .object _ _ => true
      | _ => false
    noteReference scope target
    let type := TypeExpr.named (Naming.typeName target)
    let shape := Shape.reference target isObject
    if target == scope.owner || scope.closures.reaches target scope.owner then
      noteRecursion scope target
      return { validator := .any, type := type, shape := shape }
    else
      let symbol := Naming.validatorName target scope.validatorSuffix
      return { validator := .symbol symbol, type := type, shape := shape }

/-- What the values of an object read as a dictionary are: the values of one schema, or the arrays
of such if `array`. -/
structure Element where
  array : Bool
  target : String
deriving DecidableEq

/-- The element that a schema designates, if it is a reference or an array of one. -/
def element? (schema : Schema) : Option Element :=
  match schema.kind with
  | .ref target => some ⟨false, target⟩
  | .array (some items) => items.refTarget?.map fun target => ⟨true, target⟩
  | _ => none

/-- Whether all properties designate the same element, so that the object is a dictionary. -/
def isDictionary (first : Schema.Property Schema) (rest : List (Schema.Property Schema)) : Bool :=
  (element? first.schema).isSome &&
    rest.all fun property => element? property.schema == element? first.schema

/-- Whether a schema is the kind that has `null` as its only value. -/
def isNull (schema : Schema) : Bool :=
  match schema.kind with
  | .null => true
  | _ => false

/-- Whether a property tells apart the values of an object: it is required, never `null` and one of
some literals. -/
def tellsApart (property : String) (schema : Schema) : Bool :=
  match schema.kind with
  | .object properties required =>
    !schema.metadata.nullable && required.contains property &&
      properties.any fun p =>
        p.name == property && !p.schema.metadata.nullable &&
          match p.schema.kind with
          | .string facets => !facets.literals.isEmpty
          | _ => false
  | _ => false

/-- Whether a member of a union can be told apart by a property: it is the validator of an object
that is declared as such. -/
def isDiscriminated (scope : Scope) (property : String) (value : Mapped) : Bool :=
  match value.shape with
  | .reference target true =>
    !value.nullable && !scope.explicitTyping && !value.validator.isAny &&
      !scope.closures.isRecursive target &&
      (scope.registry.get? target).any (tellsApart property)
  | _ => false

/-- The union of the values that are not just `null`. -/
def unionOf (scope : Scope) (discriminator : Option String) : List Mapped → Mapped
  | [] => { validator := .null, type := .null, shape := .null }
  | [value] => value
  | values =>
    let applied := values.map Mapped.applyNullable
    let validators := applied.map (·.validator)
    let validator :=
      match discriminator with
      | none => .union validators
      | some property =>
        if values.all (isDiscriminated scope property) then
          .discriminatedUnion property validators
        else .union validators
    { validator := validator, type := .union (applied.map (·.type)), shape := .union }

/-- The path of a branch of a union that has some branches besides `null`. -/
def branchPath (path : String) (count index : Nat) : String :=
  if count = 1 then path else childPath path ("oneOf[" ++ toString index ++ "]")

/-- The dictionary of the values of a mapped element. -/
def recordOf (value : Mapped) : Mapped :=
  let value := value.applyNullable
  { validator := .record value.validator, type := .record value.type, shape := .map }

/-- The array of mapped items. -/
def arrayOf (item : Mapped) : Mapped :=
  let item := item.applyNullable
  { validator := .array item.validator, type := .array item.type, shape := .array item.shape }

/-- Adds that a value may be `null`. -/
def Mapped.orNull (nullable : Bool) (value : Mapped) : Mapped :=
  { value with nullable := value.nullable || nullable }

mutual

/-- Maps a value. The hint names it for enums, the path locates it for diagnostics. -/
def mapValue (scope : Scope) (schema : Schema) (hint path : String) : MapM Mapped :=
  match schema with
  | ⟨.string facets, metadata⟩ => do
    return (← mapString scope facets hint).orNull metadata.nullable
  | ⟨.number facets, metadata⟩ =>
    let mapped : Mapped :=
      { validator := .number (numberChecks facets), type := .number, shape := .scalar .number }
    return mapped.orNull metadata.nullable
  | ⟨.boolean, metadata⟩ =>
    let mapped : Mapped := { validator := .boolean, type := .boolean, shape := .scalar .boolean }
    return mapped.orNull metadata.nullable
  | ⟨.null, metadata⟩ =>
    let mapped : Mapped := { validator := .null, type := .null, shape := .null }
    return mapped.orNull metadata.nullable
  | ⟨.object [] _, metadata⟩ =>
    let mapped : Mapped := { validator := .any, type := .any, shape := .unknown }
    return mapped.orNull metadata.nullable
  | ⟨.object (⟨name, first⟩ :: rest) _, metadata⟩ => do
    if isDictionary ⟨name, first⟩ rest then
      let value ← mapValue scope first hint (childPath path name)
      return (recordOf value).orNull metadata.nullable
    else
      noteUnsupported scope path "nested object literal"
      let mapped : Mapped := { validator := .any, type := .any, shape := .unknown }
      return mapped.orNull metadata.nullable
  | ⟨.record value, metadata⟩ => do
    let value ← mapValue scope value hint (childPath path "additionalProperties")
    return (recordOf value).orNull metadata.nullable
  | ⟨.array none, metadata⟩ => do
    noteUnsupported scope path "array without items"
    let item : Mapped := { validator := .any, type := .any, shape := .unknown }
    return (arrayOf item).orNull metadata.nullable
  | ⟨.array (some items), metadata⟩ => do
    let item ← mapValue scope items (Naming.singularize hint) (childPath path "items")
    return (arrayOf item).orNull metadata.nullable
  | ⟨.oneOf branches discriminator, metadata⟩ => do
    let count := branches.countP (!isNull ·)
    let values ← mapBranches scope hint path count 0 branches
    return (unionOf scope discriminator values).orNull (branches.any isNull || metadata.nullable)
  | ⟨.ref target, metadata⟩ => do
    return (← mapReference scope target).orNull metadata.nullable

/-- Maps the branches of a union that are not just `null`, in order. -/
def mapBranches (scope : Scope) (hint path : String) (count index : Nat) :
    List Schema → MapM (List Mapped)
  | [] => return []
  | branch :: branches => do
    if isNull branch then mapBranches scope hint path count index branches
    else
      let value ← mapValue scope branch hint (branchPath path count index)
      return value :: (← mapBranches scope hint path count (index + 1) branches)

end

/-- Maps a value that is part of another one, which shows whether it may be `null`. -/
def mapNested (scope : Scope) (schema : Schema) (hint path : String) : MapM Mapped := do
  return (← mapValue scope schema hint path).applyNullable

end ZodModules.Mapping
