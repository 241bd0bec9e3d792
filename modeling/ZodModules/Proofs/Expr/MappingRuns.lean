import ZodModules.Expr.Mapping

/-!
# Runs of the mapping

How a mapping that succeeds is put together, one rule for each kind of schema, as a principle of
induction; and where one fails.
-/

namespace ZodModules.Mapping

variable {scope : Scope} {α β : Type}

/-- What a step from a state comes to, and the state that it leaves. -/
def outcome (step : MapM α) (before : State) : Except ResolutionError α × State :=
  step.run.run before

/-- A step from the state `before` succeeds with a value and leaves the state `after`. -/
def Yields (step : MapM α) (before : State) (value : α) (after : State) : Prop :=
  outcome step before = (.ok value, after)

/-- A step from a state fails with an error. -/
def Fails (step : MapM α) (before : State) (e : ResolutionError) : Prop :=
  (outcome step before).1 = .error e

theorem yields_or_fails (step : MapM α) (before : State) :
    (∃ value after, Yields step before value after) ∨ ∃ e, Fails step before e := by
  unfold Yields Fails
  rcases outcome step before with ⟨result, after⟩
  cases result with
  | ok value => exact Or.inl ⟨value, after, rfl⟩
  | error e => exact Or.inr ⟨e, rfl⟩

theorem Yields.not_fails {step : MapM α} {before after : State} {value : α}
    (h : Yields step before value after) (e : ResolutionError) : ¬ Fails step before e := by
  unfold Fails
  rw [h]
  simp

@[simp] theorem yields_pure {a b : α} {before after : State} :
    Yields (pure a) before b after ↔ a = b ∧ before = after := by
  show ((Except.ok a, before) : Except ResolutionError α × State) = _ ↔ _
  simp

@[simp] theorem not_fails_pure {a : α} {before : State} {e : ResolutionError} :
    ¬ Fails (pure a) before e := by
  intro h
  cases h

theorem outcome_bind (step : MapM α) (next : α → MapM β) (before : State) :
    outcome (step >>= next) before =
      match (outcome step before).1 with
      | .ok a => outcome (next a) (outcome step before).2
      | .error e => (.error e, (outcome step before).2) := by
  unfold outcome
  rw [ExceptT.run_bind, StateT.run_bind]
  show StateT.run _ (step.run.run before).2 = _
  cases (step.run.run before).1 <;> rfl

theorem outcome_map (f : α → β) (step : MapM α) (before : State) :
    outcome (f <$> step) before = ((outcome step before).1.map f, (outcome step before).2) := by
  rw [map_eq_pure_bind, outcome_bind]
  rcases outcome step before with ⟨result, after⟩
  cases result <;> rfl

theorem yields_bind {step : MapM α} {next : α → MapM β} {before after : State} {b : β} :
    Yields (step >>= next) before b after ↔
      ∃ a middle, Yields step before a middle ∧ Yields (next a) middle b after := by
  unfold Yields
  rw [outcome_bind]
  rcases outcome step before with ⟨result, middle⟩
  cases result with
  | ok a =>
    constructor
    · intro h
      exact ⟨a, middle, rfl, h⟩
    · rintro ⟨_, _, same, h⟩
      cases same
      exact h
  | error e => simp

theorem fails_bind {step : MapM α} {next : α → MapM β} {before : State} {e : ResolutionError} :
    Fails (step >>= next) before e ↔
      Fails step before e ∨ ∃ a middle, Yields step before a middle ∧ Fails (next a) middle e := by
  unfold Yields Fails
  rw [outcome_bind]
  rcases outcome step before with ⟨result, middle⟩
  cases result with
  | ok a =>
    constructor
    · intro h
      exact Or.inr ⟨a, middle, rfl, h⟩
    · rintro (impossible | ⟨_, _, same, h⟩)
      · cases impossible
      · cases same
        exact h
  | error e => simp

/-- What a reference that is not noted yet adds to the notes. -/
def State.refer (state : State) (owner target : String) : State :=
  if target = owner ∨ target ∈ state.references then state
  else { state with references := state.references ++ [target] }

/-- What a reference that closes a cycle adds to the notes. -/
def State.close (state : State) (owner target : String) : State :=
  { state with
    recursive := true
    diagnostics := state.diagnostics ++ [.recursion owner target] }

/-- What a shape that no validator expresses adds to the notes. -/
def State.degrade (state : State) (owner path shape : String) : State :=
  { state with diagnostics := state.diagnostics ++ [.shape ⟨owner, path, shape⟩] }

/-- What the declaration of an enum adds to the notes. -/
def State.declare (state : State) (declaration : Model.EnumDeclaration) : State :=
  if state.enums.any (·.constant == (fitted state.enums declaration).constant) then state
  else { state with enums := state.enums ++ [fitted state.enums declaration] }

theorem yields_noteReference {target : String} {before after : State} {u : Unit} :
    Yields (noteReference scope target) before u after ↔ before.refer scope.owner target = after := by
  show ((Except.ok (), before.refer scope.owner target) : Except ResolutionError Unit × State) = _ ↔ _
  simp

theorem yields_noteRecursion {target : String} {before after : State} {u : Unit} :
    Yields (noteRecursion scope target) before u after ↔ before.close scope.owner target = after := by
  show ((Except.ok (), before.close scope.owner target) : Except ResolutionError Unit × State) = _ ↔ _
  simp

theorem yields_noteUnsupported {path shape : String} {before after : State} {u : Unit} :
    Yields (noteUnsupported scope path shape) before u after ↔
      before.degrade scope.owner path shape = after := by
  show ((Except.ok (), before.degrade scope.owner path shape) :
    Except ResolutionError Unit × State) = _ ↔ _
  simp

theorem not_fails_noteUnsupported {path shape : String} {before : State} {e : ResolutionError} :
    ¬ Fails (noteUnsupported scope path shape) before e :=
  (yields_noteUnsupported (u := ()).2 rfl).not_fails e

theorem yields_declareEnum {declaration final : Model.EnumDeclaration} {before after : State} :
    Yields (declareEnum declaration) before final after ↔
      fitted before.enums declaration = final ∧ before.declare declaration = after := by
  have run : outcome (declareEnum declaration) before =
      (.ok (fitted before.enums declaration), before.declare declaration) := by
    unfold State.declare
    by_cases known : before.enums.any (·.constant == (fitted before.enums declaration).constant)
    · rw [if_pos known]
      show (if _ then _ else _ : MapM _).run before = _
      rw [if_pos known]
      rfl
    · rw [if_neg known]
      show (if _ then _ else _ : MapM _).run before = _
      rw [if_neg known]
      rfl
  unfold Yields
  rw [run]
  simp

theorem not_fails_declareEnum {declaration : Model.EnumDeclaration} {before : State}
    {e : ResolutionError} : ¬ Fails (declareEnum declaration) before e :=
  (yields_declareEnum.2 ⟨rfl, rfl⟩).not_fails e

/-- The enum that the literals of a string ask for, under its first names. -/
def enumOf (scope : Scope) (values : List String) (hint : String) : Model.EnumDeclaration where
  constant := Naming.enumConstantName scope.owner hint
  type := if hint.isEmpty then none else some (Naming.enumTypeName scope.owner hint)
  values := values

/-- What a string with the given declaration of its literals maps to. -/
def enumValue (declaration : Model.EnumDeclaration) : Mapped where
  validator := .enum declaration.constant
  type := (declaration.type.map .named).getD (.elementOf declaration.constant)
  shape := .enum declaration.constant

theorem yields_mapString {facets : Schema.StringFacets} {hint : String} {before after : State}
    {value : Mapped} (h : Yields (mapString scope facets hint) before value after) :
    (facets.literals = [] ∧ after = before ∧
      value = { validator := .string (stringChecks facets), type := .string, shape := .scalar .string }) ∨
    (∃ literal, facets.literals = [literal] ∧ after = before ∧
      value = { validator := .literal literal, type := .literal literal, shape := .literal literal }) ∨
    (2 ≤ facets.literals.length ∧ after = before.declare (enumOf scope facets.literals hint) ∧
      value = enumValue (fitted before.enums (enumOf scope facets.literals hint))) := by
  unfold mapString at h
  split at h
  · rename_i literals
    obtain ⟨rfl, rfl⟩ := yields_pure.1 h
    exact Or.inl ⟨literals, rfl, rfl⟩
  · rename_i literal literals
    obtain ⟨rfl, rfl⟩ := yields_pure.1 h
    exact Or.inr (Or.inl ⟨literal, literals, rfl, rfl⟩)
  · rename_i several single
    obtain ⟨declaration, middle, declared, rest⟩ := yields_bind.1 h
    obtain ⟨rfl, rfl⟩ := yields_declareEnum.1 declared
    obtain ⟨rfl, rfl⟩ := yields_pure.1 rest
    refine Or.inr (Or.inr ⟨?_, rfl, rfl⟩)
    rcases literals : facets.literals with _ | ⟨first, _ | ⟨second, rest⟩⟩
    · exact absurd literals several
    · exact absurd literals (single first)
    · simp

theorem not_fails_mapString {facets : Schema.StringFacets} {hint : String} {before : State}
    {e : ResolutionError} : ¬ Fails (mapString scope facets hint) before e := by
  unfold mapString
  split
  · exact not_fails_pure
  · exact not_fails_pure
  · rw [fails_bind]
    rintro (failed | ⟨declaration, middle, -, failed⟩)
    · exact not_fails_declareEnum failed
    · exact not_fails_pure failed

/-- Whether values of a schema are objects with properties. -/
def isObject (schema : Schema) : Bool :=
  match schema.kind with
  | .object _ _ => true
  | _ => false

/-- A reference to the owner, or to what reaches it, would be used before it is declared. -/
def Scope.closes (scope : Scope) (target : String) : Bool :=
  target == scope.owner || scope.closures.reaches target scope.owner

/-- What a reference to a schema maps to. -/
def referenceValue (scope : Scope) (target : String) (schema : Schema) : Mapped where
  validator :=
    if scope.closes target then .any
    else .symbol (Naming.validatorName target scope.validatorSuffix)
  type := .named (Naming.typeName target)
  shape := .reference target (isObject schema)

/-- What a reference adds to the notes. -/
def State.visit (state : State) (scope : Scope) (target : String) : State :=
  if scope.closes target then (state.refer scope.owner target).close scope.owner target
  else state.refer scope.owner target

theorem mapReference_of_registered {target : String} {schema : Schema}
    (registered : scope.registry.get? target = some schema) :
    mapReference scope target = (do
      noteReference scope target
      if scope.closes target then noteRecursion scope target
      return referenceValue scope target schema) := by
  unfold mapReference referenceValue
  rw [registered]
  by_cases closes : scope.closes target
  · have closes' : (target == scope.owner || scope.closures.reaches target scope.owner) = true :=
      closes
    simp only [closes, closes', if_true]
    rfl
  · have closes' : ¬ (target == scope.owner || scope.closures.reaches target scope.owner) = true :=
      closes
    simp only [closes, closes']
    rfl

theorem yields_mapReference {target : String} {before after : State} {value : Mapped} :
    Yields (mapReference scope target) before value after ↔
      ∃ schema, scope.registry.get? target = some schema ∧ before.visit scope target = after ∧
        referenceValue scope target schema = value := by
  cases registered : scope.registry.get? target with
  | none =>
    unfold mapReference
    rw [registered]
    constructor
    · intro h
      cases h
    · rintro ⟨_, impossible, -⟩
      cases impossible
  | some schema =>
    rw [mapReference_of_registered registered]
    unfold State.visit
    by_cases closes : scope.closes target
    · simp only [closes, if_true, yields_bind, yields_noteReference, yields_noteRecursion,
        yields_pure]
      simp [and_comm]
    · simp only [closes, yields_bind, yields_noteReference]
      simp [and_comm]

theorem fails_mapReference {target : String} {before : State} {e : ResolutionError}
    (h : Fails (mapReference scope target) before e) :
    e = ⟨scope.owner, target⟩ ∧ ¬ scope.registry.contains target := by
  cases registered : scope.registry.get? target with
  | none =>
    unfold mapReference at h
    rw [registered] at h
    cases h
    refine ⟨rfl, ?_⟩
    show ¬ (scope.registry.get? target).isSome
    simp [registered]
  | some schema =>
    exact absurd h ((yields_mapReference.2 ⟨schema, registered, rfl, rfl⟩).not_fails e)

mutual
/-- Mapping fails only at a reference of the schema to an unregistered name. -/
theorem refs_of_mapValue_fails {e : ResolutionError} :
    ∀ (schema : Schema) {hint path : String} {before : State},
    Fails (mapValue scope schema hint path) before e →
    e.schema = scope.owner ∧ e.reference ∈ schema.refs ∧ ¬ scope.registry.contains e.reference
  | ⟨.string facets, metadata⟩, hint, path, before, h => by
    rw [mapValue] at h
    rcases fails_bind.1 h with h | ⟨value, middle, -, h⟩
    · exact absurd h not_fails_mapString
    · exact absurd h not_fails_pure
  | ⟨.number facets, metadata⟩, hint, path, before, h => by
    rw [mapValue] at h
    exact absurd h not_fails_pure
  | ⟨.boolean, metadata⟩, hint, path, before, h => by
    rw [mapValue] at h
    exact absurd h not_fails_pure
  | ⟨.null, metadata⟩, hint, path, before, h => by
    rw [mapValue] at h
    exact absurd h not_fails_pure
  | ⟨.object [] _, metadata⟩, hint, path, before, h => by
    rw [mapValue] at h
    exact absurd h not_fails_pure
  | ⟨.object (⟨name, first⟩ :: rest) _, metadata⟩, hint, path, before, h => by
    rw [mapValue] at h
    split at h
    · rcases fails_bind.1 h with h | ⟨value, middle, -, h⟩
      · obtain ⟨owner, cited, missing⟩ := refs_of_mapValue_fails first h
        refine ⟨owner, ?_, missing⟩
        rw [Schema.refs, Schema.propertyRefs]
        exact List.mem_append_left _ cited
      · exact absurd h not_fails_pure
    · rcases fails_bind.1 h with h | ⟨value, middle, -, h⟩
      · exact absurd h not_fails_noteUnsupported
      · exact absurd h not_fails_pure
  | ⟨.record value, metadata⟩, hint, path, before, h => by
    rw [mapValue] at h
    rcases fails_bind.1 h with h | ⟨value, middle, -, h⟩
    · rw [Schema.refs]
      exact refs_of_mapValue_fails value h
    · exact absurd h not_fails_pure
  | ⟨.array none, metadata⟩, hint, path, before, h => by
    rw [mapValue] at h
    rcases fails_bind.1 h with h | ⟨value, middle, -, h⟩
    · exact absurd h not_fails_noteUnsupported
    · exact absurd h not_fails_pure
  | ⟨.array (some items), metadata⟩, hint, path, before, h => by
    rw [mapValue] at h
    rcases fails_bind.1 h with h | ⟨value, middle, -, h⟩
    · rw [Schema.refs]
      exact refs_of_mapValue_fails items h
    · exact absurd h not_fails_pure
  | ⟨.oneOf branches discriminator, metadata⟩, hint, path, before, h => by
    rw [mapValue] at h
    rcases fails_bind.1 h with h | ⟨value, middle, -, h⟩
    · rw [Schema.refs]
      exact refs_of_mapBranches_fails branches h
    · exact absurd h not_fails_pure
  | ⟨.ref target, metadata⟩, hint, path, before, h => by
    rw [mapValue] at h
    rcases fails_bind.1 h with h | ⟨value, middle, -, h⟩
    · obtain ⟨rfl, missing⟩ := fails_mapReference h
      rw [Schema.refs]
      exact ⟨rfl, List.mem_cons_self, missing⟩
    · exact absurd h not_fails_pure

/-- The same for the branches of a union. -/
theorem refs_of_mapBranches_fails {e : ResolutionError} : ∀ (branches : List Schema)
    {hint path : String} {count index : Nat} {before : State},
    Fails (mapBranches scope hint path count index branches) before e →
    e.schema = scope.owner ∧ e.reference ∈ Schema.branchRefs branches ∧
      ¬ scope.registry.contains e.reference
  | [], hint, path, count, index, before, h => by
    rw [mapBranches] at h
    exact absurd h not_fails_pure
  | branch :: branches, hint, path, count, index, before, h => by
    rw [mapBranches] at h
    rw [Schema.branchRefs, List.mem_append]
    split at h
    · obtain ⟨owner, cited, missing⟩ := refs_of_mapBranches_fails branches h
      exact ⟨owner, Or.inr cited, missing⟩
    · rcases fails_bind.1 h with h | ⟨value, middle, -, h⟩
      · obtain ⟨owner, cited, missing⟩ := refs_of_mapValue_fails branch h
        exact ⟨owner, Or.inl cited, missing⟩
      · rcases fails_bind.1 h with h | ⟨values, last, -, h⟩
        · obtain ⟨owner, cited, missing⟩ := refs_of_mapBranches_fails branches h
          exact ⟨owner, Or.inr cited, missing⟩
        · exact absurd h not_fails_pure
end

/-- What a shape that no validator expresses maps to. -/
def unknownValue : Mapped where
  validator := .any
  type := .any
  shape := .unknown

/-- What is to be shown, one rule for each kind of schema, to establish something of every mapping
that succeeds. -/
structure Rules (scope : Scope) (P : Schema → String → String → State → Mapped → State → Prop)
    (Q : String → String → Nat → Nat → List Schema → State → List Mapped → State → Prop) : Prop where
  string : ∀ {facets metadata hint path before value after},
    Yields (mapString scope facets hint) before value after →
    P ⟨.string facets, metadata⟩ hint path before (value.orNull metadata.nullable) after
  number : ∀ {facets metadata hint path before},
    P ⟨.number facets, metadata⟩ hint path before
      (Mapped.orNull metadata.nullable
        { validator := .number (numberChecks facets), type := .number, shape := .scalar .number })
      before
  boolean : ∀ {metadata hint path before},
    P ⟨.boolean, metadata⟩ hint path before
      (Mapped.orNull metadata.nullable
        { validator := .boolean, type := .boolean, shape := .scalar .boolean })
      before
  null : ∀ {metadata hint path before},
    P ⟨.null, metadata⟩ hint path before
      (Mapped.orNull metadata.nullable { validator := .null, type := .null, shape := .null })
      before
  emptyObject : ∀ {required metadata hint path before},
    P ⟨.object [] required, metadata⟩ hint path before (unknownValue.orNull metadata.nullable)
      before
  dictionary : ∀ {name first rest required metadata hint path before value after},
    isDictionary ⟨name, first⟩ rest →
    Yields (mapValue scope first hint (childPath path name)) before value after →
    P first hint (childPath path name) before value after →
    P ⟨.object (⟨name, first⟩ :: rest) required, metadata⟩ hint path before
      ((recordOf value).orNull metadata.nullable) after
  literalObject : ∀ {name first rest required metadata hint path before},
    ¬ isDictionary ⟨name, first⟩ rest →
    P ⟨.object (⟨name, first⟩ :: rest) required, metadata⟩ hint path before
      (unknownValue.orNull metadata.nullable)
      (before.degrade scope.owner path "nested object literal")
  record : ∀ {item metadata hint path before value after},
    Yields (mapValue scope item hint (childPath path "additionalProperties")) before value after →
    P item hint (childPath path "additionalProperties") before value after →
    P ⟨.record item, metadata⟩ hint path before ((recordOf value).orNull metadata.nullable) after
  untypedArray : ∀ {metadata hint path before},
    P ⟨.array none, metadata⟩ hint path before ((arrayOf unknownValue).orNull metadata.nullable)
      (before.degrade scope.owner path "array without items")
  array : ∀ {items metadata hint path before value after},
    Yields (mapValue scope items (Naming.singularize hint) (childPath path "items")) before value
      after →
    P items (Naming.singularize hint) (childPath path "items") before value after →
    P ⟨.array (some items), metadata⟩ hint path before ((arrayOf value).orNull metadata.nullable)
      after
  oneOf : ∀ {branches discriminator metadata hint path before values after},
    Yields (mapBranches scope hint path (branches.countP (!isNull ·)) 0 branches) before values
      after →
    Q hint path (branches.countP (!isNull ·)) 0 branches before values after →
    P ⟨.oneOf branches discriminator, metadata⟩ hint path before
      ((unionOf scope discriminator values).orNull (branches.any isNull || metadata.nullable))
      after
  ref : ∀ {target schema metadata hint path before},
    scope.registry.get? target = some schema →
    P ⟨.ref target, metadata⟩ hint path before
      ((referenceValue scope target schema).orNull metadata.nullable) (before.visit scope target)
  done : ∀ {hint path count index before}, Q hint path count index [] before [] before
  skip : ∀ {branch branches hint path count index before values after},
    isNull branch →
    Q hint path count index branches before values after →
    Q hint path count index (branch :: branches) before values after
  next : ∀ {branch branches hint path count index before value middle values after},
    ¬ isNull branch →
    Yields (mapValue scope branch hint (branchPath path count index)) before value middle →
    P branch hint (branchPath path count index) before value middle →
    Q hint path count (index + 1) branches middle values after →
    Q hint path count index (branch :: branches) before (value :: values) after

namespace Rules

variable {P : Schema → String → String → State → Mapped → State → Prop}
  {Q : String → String → Nat → Nat → List Schema → State → List Mapped → State → Prop}
  (rules : Rules scope P Q)

include rules

mutual

/-- What the rules for all kinds establish holds of every mapping that succeeds. -/
theorem hold : ∀ (schema : Schema) {hint path : String} {before : State}
    {value : Mapped} {after : State}, Yields (mapValue scope schema hint path) before value after →
    P schema hint path before value after
  | ⟨.string facets, metadata⟩, hint, path, before, value, after, h => by
    rw [mapValue] at h
    obtain ⟨mapped, middle, run, returned⟩ := yields_bind.1 h
    obtain ⟨rfl, rfl⟩ := yields_pure.1 returned
    exact rules.string run
  | ⟨.number facets, metadata⟩, hint, path, before, value, after, h => by
    rw [mapValue] at h
    obtain ⟨rfl, rfl⟩ := yields_pure.1 h
    exact rules.number
  | ⟨.boolean, metadata⟩, hint, path, before, value, after, h => by
    rw [mapValue] at h
    obtain ⟨rfl, rfl⟩ := yields_pure.1 h
    exact rules.boolean
  | ⟨.null, metadata⟩, hint, path, before, value, after, h => by
    rw [mapValue] at h
    obtain ⟨rfl, rfl⟩ := yields_pure.1 h
    exact rules.null
  | ⟨.object [] _, metadata⟩, hint, path, before, value, after, h => by
    rw [mapValue] at h
    obtain ⟨rfl, rfl⟩ := yields_pure.1 h
    exact rules.emptyObject
  | ⟨.object (⟨name, first⟩ :: rest) _, metadata⟩, hint, path, before, value, after, h => by
    rw [mapValue] at h
    split at h
    · rename_i homogeneous
      obtain ⟨mapped, middle, run, returned⟩ := yields_bind.1 h
      obtain ⟨rfl, rfl⟩ := yields_pure.1 returned
      exact rules.dictionary homogeneous run (hold first run)
    · rename_i mixed
      obtain ⟨u, middle, noted, returned⟩ := yields_bind.1 h
      obtain ⟨rfl, rfl⟩ := yields_pure.1 returned
      rw [← yields_noteUnsupported.1 noted]
      exact rules.literalObject mixed
  | ⟨.record item, metadata⟩, hint, path, before, value, after, h => by
    rw [mapValue] at h
    obtain ⟨mapped, middle, run, returned⟩ := yields_bind.1 h
    obtain ⟨rfl, rfl⟩ := yields_pure.1 returned
    exact rules.record run (hold item run)
  | ⟨.array none, metadata⟩, hint, path, before, value, after, h => by
    rw [mapValue] at h
    obtain ⟨u, middle, noted, returned⟩ := yields_bind.1 h
    obtain ⟨rfl, rfl⟩ := yields_pure.1 returned
    rw [← yields_noteUnsupported.1 noted]
    exact rules.untypedArray
  | ⟨.array (some items), metadata⟩, hint, path, before, value, after, h => by
    rw [mapValue] at h
    obtain ⟨mapped, middle, run, returned⟩ := yields_bind.1 h
    obtain ⟨rfl, rfl⟩ := yields_pure.1 returned
    exact rules.array run (hold items run)
  | ⟨.oneOf branches discriminator, metadata⟩, hint, path, before, value, after, h => by
    rw [mapValue] at h
    obtain ⟨values, middle, run, returned⟩ := yields_bind.1 h
    obtain ⟨rfl, rfl⟩ := yields_pure.1 returned
    exact rules.oneOf run (hold_branches branches run)
  | ⟨.ref target, metadata⟩, hint, path, before, value, after, h => by
    rw [mapValue] at h
    obtain ⟨mapped, middle, run, returned⟩ := yields_bind.1 h
    obtain ⟨schema, registered, rfl, rfl⟩ := yields_mapReference.1 run
    obtain ⟨rfl, rfl⟩ := yields_pure.1 returned
    exact rules.ref registered

/-- The same for the branches of a union. -/
theorem hold_branches : ∀ (branches : List Schema) {hint path : String} {count index : Nat}
    {before : State} {values : List Mapped} {after : State},
    Yields (mapBranches scope hint path count index branches) before values after →
    Q hint path count index branches before values after
  | [], hint, path, count, index, before, values, after, h => by
    rw [mapBranches] at h
    obtain ⟨rfl, rfl⟩ := yields_pure.1 h
    exact rules.done
  | branch :: branches, hint, path, count, index, before, values, after, h => by
    rw [mapBranches] at h
    split at h
    · rename_i isNull
      exact rules.skip isNull (hold_branches branches h)
    · rename_i notNull
      obtain ⟨value, middle, first, rest⟩ := yields_bind.1 h
      obtain ⟨others, last, further, rest⟩ := yields_bind.1 rest
      obtain ⟨rfl, rfl⟩ := yields_pure.1 rest
      exact rules.next notNull first (hold branch first)
        (hold_branches branches further)

end

end Rules

end ZodModules.Mapping
