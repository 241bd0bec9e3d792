import ZodModules.Proofs.Expr.MappingContexts

/-!
# Typing modes

Whether types are spelled out decides just one thing about a mapping: whether a union whose members
a property tells apart says so. With types spelled out a mapping comes to what it comes to otherwise
with each such union made a plain one, and it leaves the same notes.
-/

namespace ZodModules

namespace Validator

mutual

/-- The expression with a plain union in place of each discriminated one. -/
def loosen : Validator → Validator
  | record value => record value.loosen
  | array item => array item.loosen
  | union members => union (loosenAll members)
  | discriminatedUnion _ members => union (loosenAll members)
  | object fields => object (loosenFields fields)
  | nullable inner => nullable inner.loosen
  | optional inner => optional inner.loosen
  | described inner description => described inner.loosen description
  | defaulted inner value => defaulted inner.loosen value
  | any => any
  | string checks => string checks
  | literal value => literal value
  | enum constant => enum constant
  | number checks => number checks
  | boolean => boolean
  | null => null
  | symbol name => symbol name

/-- The same for some expressions. -/
def loosenAll : List Validator → List Validator
  | [] => []
  | member :: members => member.loosen :: loosenAll members

/-- The same for the expressions of some fields. -/
def loosenFields : List (String × Validator) → List (String × Validator)
  | [] => []
  | (name, value) :: fields => (name, value.loosen) :: loosenFields fields

end

theorem loosenAll_eq_map (members : List Validator) : loosenAll members = members.map loosen := by
  induction members with
  | nil => rfl
  | cons member members ih => rw [loosenAll, ih, List.map_cons]

@[simp] theorem loosen_orNull (nullable : Bool) (validator : Validator) :
    (validator.orNull nullable).loosen = validator.loosen.orNull nullable := by
  cases nullable <;> rfl

end Validator

namespace Mapping

variable {scope : Scope}

/-- The expressions with plain unions only. -/
def Mapped.loosen (value : Mapped) : Mapped := { value with validator := value.validator.loosen }

/-- The same scope with types spelled out. -/
def Scope.spelledOut (scope : Scope) : Scope := { scope with explicitTyping := true }

theorem loosen_applyNullable (value : Mapped) :
    value.applyNullable.loosen = value.loosen.applyNullable := by
  simp [Mapped.applyNullable, Mapped.loosen]

theorem loosen_recordOf (value : Mapped) : (recordOf value).loosen = recordOf value.loosen := by
  rw [recordOf, recordOf, ← loosen_applyNullable]
  rfl

theorem loosen_arrayOf (value : Mapped) : (arrayOf value).loosen = arrayOf value.loosen := by
  rw [arrayOf, arrayOf, ← loosen_applyNullable]
  rfl

/-- With types spelled out no value passes the check for members of discriminated unions. -/
theorem not_isDiscriminated_spelledOut (property : String) (value : Mapped) :
    isDiscriminated scope.spelledOut property value = false := by
  unfold isDiscriminated
  split
  · simp [Scope.spelledOut]
  · rfl

/-- The plain union of some values. -/
def plainUnion (values : List Mapped) : Mapped where
  validator := .union ((values.map Mapped.applyNullable).map (·.validator))
  type := .union ((values.map Mapped.applyNullable).map (·.type))
  shape := .union

theorem unionOf_spelledOut (discriminator : Option String) (first second : Mapped)
    (rest : List Mapped) :
    unionOf scope.spelledOut discriminator (first :: second :: rest) =
      plainUnion (first :: second :: rest) := by
  cases discriminator with
  | none => rfl
  | some property =>
    have unqualified : (first :: second :: rest).all (isDiscriminated scope.spelledOut property) =
        false := by
      rw [List.all_cons, not_isDiscriminated_spelledOut, Bool.false_and]
    simp only [unionOf, unqualified]
    rfl

theorem plainUnion_loosen (values : List Mapped) :
    plainUnion (values.map Mapped.loosen) = (plainUnion values).loosen := by
  have applied : (values.map Mapped.loosen).map Mapped.applyNullable =
      (values.map Mapped.applyNullable).map Mapped.loosen := by
    rw [List.map_map, List.map_map]
    exact List.map_congr_left fun value _ => (loosen_applyNullable value).symm
  unfold plainUnion
  rw [applied, Mapped.loosen, Validator.loosen, Validator.loosenAll_eq_map]
  simp only [List.map_map, Function.comp_def, Mapped.loosen]

/-- A union is loosened by loosening its members and spelling out types. -/
theorem loosen_unionOf (discriminator : Option String) (values : List Mapped) :
    (unionOf scope discriminator values).loosen =
      unionOf scope.spelledOut discriminator (values.map Mapped.loosen) := by
  rcases values with _ | ⟨first, _ | ⟨second, rest⟩⟩
  · rfl
  · rfl
  · have either : (unionOf scope discriminator (first :: second :: rest)).loosen =
        (plainUnion (first :: second :: rest)).loosen := by
      unfold unionOf
      dsimp only
      split
      · rfl
      · split <;> rfl
    rw [either, List.map_cons, List.map_cons, unionOf_spelledOut, ← plainUnion_loosen]
    rfl

theorem loosen_mapString (facets : Schema.StringFacets) (hint : String) :
    Mapped.loosen <$> mapString scope facets hint = mapString scope.spelledOut facets hint := by
  unfold mapString
  split
  · rw [map_pure]
    rfl
  · rw [map_pure]
    rfl
  · rw [map_bind]
    rfl

theorem loosen_referenceValue (target : String) (schema : Schema) :
    (referenceValue scope target schema).loosen =
      referenceValue scope.spelledOut target schema := by
  have same : scope.spelledOut.closes target = scope.closes target := rfl
  unfold referenceValue Mapped.loosen
  rw [same]
  cases scope.closes target <;> rfl

theorem loosen_mapReference (target : String) :
    Mapped.loosen <$> mapReference scope target = mapReference scope.spelledOut target := by
  cases registered : scope.registry.get? target with
  | none =>
    have registered' : scope.spelledOut.registry.get? target = none := registered
    unfold mapReference
    rw [registered, registered']
    rfl
  | some schema =>
    have registered' : scope.spelledOut.registry.get? target = some schema := registered
    rw [mapReference_of_registered registered, mapReference_of_registered registered',
      ← loosen_referenceValue, map_bind]
    refine bind_congr fun _ => ?_
    show _ = if scope.closes target then _ else _
    split
    · rw [map_bind]
      rfl
    · rfl

mutual

/-- Spelling out types loosens the unions of a value and changes nothing else: neither whether it
fails, nor what is noted. -/
theorem mapValue_spelledOut (scope : Scope) : ∀ (schema : Schema) (hint path : String),
    mapValue scope.spelledOut schema hint path = Mapped.loosen <$> mapValue scope schema hint path
  | ⟨.string facets, metadata⟩, hint, path => by
    rw [mapValue, mapValue, map_bind, ← loosen_mapString, bind_map_left]
    rfl
  | ⟨.number facets, metadata⟩, hint, path => by
    rw [mapValue, mapValue, map_pure]
    rfl
  | ⟨.boolean, metadata⟩, hint, path => by
    rw [mapValue, mapValue, map_pure]
    rfl
  | ⟨.null, metadata⟩, hint, path => by
    rw [mapValue, mapValue, map_pure]
    rfl
  | ⟨.object [] _, metadata⟩, hint, path => by
    rw [mapValue, mapValue, map_pure]
    rfl
  | ⟨.object (⟨name, first⟩ :: rest) _, metadata⟩, hint, path => by
    rw [mapValue, mapValue]
    split
    · rw [mapValue_spelledOut scope first, map_bind, bind_map_left]
      simp only [map_pure, ← loosen_recordOf]
      rfl
    · rw [map_bind]
      rfl
  | ⟨.record value, metadata⟩, hint, path => by
    rw [mapValue, mapValue, mapValue_spelledOut scope value, map_bind, bind_map_left]
    simp only [map_pure, ← loosen_recordOf]
    rfl
  | ⟨.array none, metadata⟩, hint, path => by
    rw [mapValue, mapValue, map_bind]
    rfl
  | ⟨.array (some items), metadata⟩, hint, path => by
    rw [mapValue, mapValue, mapValue_spelledOut scope items, map_bind, bind_map_left]
    simp only [map_pure, ← loosen_arrayOf]
    rfl
  | ⟨.oneOf branches discriminator, metadata⟩, hint, path => by
    rw [mapValue, mapValue, mapBranches_spelledOut scope branches, map_bind, bind_map_left]
    simp only [map_pure, ← loosen_unionOf]
    rfl
  | ⟨.ref target, metadata⟩, hint, path => by
    rw [mapValue, mapValue, map_bind, ← loosen_mapReference, bind_map_left]
    rfl

/-- The same for the branches of a union. -/
theorem mapBranches_spelledOut (scope : Scope) : ∀ (branches : List Schema) (hint path : String)
    (count index : Nat), mapBranches scope.spelledOut hint path count index branches =
      List.map Mapped.loosen <$> mapBranches scope hint path count index branches
  | [], hint, path, count, index => by
    rw [mapBranches, mapBranches, map_pure]
    rfl
  | branch :: branches, hint, path, count, index => by
    rw [mapBranches, mapBranches]
    split
    · exact mapBranches_spelledOut scope branches hint path count index
    · rw [mapValue_spelledOut scope branch, mapBranches_spelledOut scope branches, map_bind,
        bind_map_left]
      simp only [map_bind, bind_map_left, map_pure, List.map_cons]

end

/-- What some values mapped one after another come to, each with the notes that it leaves, whether
it succeeds or fails. -/
def answers (scope : Scope) : List Call → State → List (Except ResolutionError Mapped × State)
  | [], _ => []
  | call :: calls, before =>
    let answer := outcome (mapValue scope call.schema call.hint call.path) before
    answer :: answers scope calls answer.2

/-- Also in a sequence, where each value is mapped with the notes of those before it, spelling out
types loosens the unions and changes nothing else. -/
theorem answers_spelledOut (scope : Scope) (calls : List Call) (before : State) :
    answers scope.spelledOut calls before =
      (answers scope calls before).map fun answer => (answer.1.map Mapped.loosen, answer.2) := by
  induction calls generalizing before with
  | nil => rfl
  | cons call calls ih =>
    rw [answers, answers, mapValue_spelledOut, outcome_map, ih, List.map_cons]

end Mapping

end ZodModules
