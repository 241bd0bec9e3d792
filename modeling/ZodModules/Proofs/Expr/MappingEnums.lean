import ZodModules.Proofs.Expr.MappingReferences
import ZodModules.Proofs.Model.Numbering
import ZodModules.Proofs.Naming.Characters

/-!
# Enums of a mapping

Which enums a mapping declares. They are only ever added, under constants that are still free, and
the constant under which an enum is used lists its values from then on.
-/

namespace ZodModules.Mapping

open Model (EnumDeclaration)

variable {scope : Scope}

/-- The declaration of a constant among some enums. -/
def declared? (enums : List EnumDeclaration) (constant : String) : Option EnumDeclaration :=
  enums.find? (·.constant == constant)

theorem constant_of_declared? {enums : List EnumDeclaration} {constant : String}
    {known : EnumDeclaration} (found : declared? enums constant = some known) :
    known ∈ enums ∧ known.constant = constant :=
  ⟨List.mem_of_find?_eq_some found, by simpa using List.find?_some found⟩

theorem fits_iff {enums : List EnumDeclaration} {declaration : EnumDeclaration} :
    fits enums declaration ↔
      ∀ known, declared? enums declaration.constant = some known →
        known.values = declaration.values := by
  unfold fits declared?
  cases enums.find? (·.constant == declaration.constant) with
  | none => simp
  | some known => simp

/-- The number that an enum gets makes it fit. -/
theorem fitted_spec (enums : List EnumDeclaration) (declaration : EnumDeclaration) :
    ∃ number, 1 ≤ number ∧ fitted enums declaration = declaration.numbered number ∧
      fits enums (declaration.numbered number) := by
  have once (known : EnumDeclaration) (first second : Nat)
      (of_first : Model.numbered declaration.constant first = known.constant)
      (of_second : Model.numbered declaration.constant second = known.constant) :
      first = second :=
    Model.numbered_injective declaration.constant (of_first.trans of_second.symm)
  have blocked (number : Nat) (unfit : fits enums (declaration.numbered number) = false) :
      ∃ known ∈ enums, Model.numbered declaration.constant number = known.constant := by
    cases found : declared? enums (declaration.numbered number).constant with
    | none =>
      have fit : fits enums (declaration.numbered number) := fits_iff.2 fun known other => by
        rw [found] at other
        cases other
      rw [unfit] at fit
      cases fit
    | some known =>
      obtain ⟨member, same⟩ := constant_of_declared? found
      exact ⟨known, member, same.symm⟩
  obtain ⟨number, found⟩ :=
    Model.exists_find?_range' once blocked (Nat.lt_succ_self enums.length)
  have least := List.mem_range'_1.1 (List.mem_of_find?_eq_some found)
  have fit : fits enums (declaration.numbered number) := by
    simpa using List.find?_some found
  refine ⟨number, least.1, ?_, fit⟩
  rw [fitted, found]
  rfl

/-- What is always so while the enums of a schema are collected: the constants are distinct, and all
names are those of the schema and one of its properties, with a number. -/
structure Collected (scope : Scope) (enums : List EnumDeclaration) : Prop where
  distinct : (enums.map (·.constant)).Nodup
  named : ∀ known ∈ enums, ∃ values hint number,
    known = (enumOf scope values hint).numbered number

theorem collected_nil : Collected scope [] := ⟨by simp, by simp⟩

theorem enums_declare (before : State) (declaration : EnumDeclaration) :
    (before.declare declaration).enums =
      if before.enums.any (·.constant == (fitted before.enums declaration).constant) then
        before.enums
      else before.enums ++ [fitted before.enums declaration] := by
  unfold State.declare
  split <;> rfl

theorem enums_prefix_declare (before : State) (declaration : EnumDeclaration) :
    before.enums <+: (before.declare declaration).enums := by
  rw [enums_declare]
  split
  · exact List.prefix_refl _
  · exact List.prefix_append _ _

theorem Collected.declare {before : State} (h : Collected scope before.enums)
    (values : List String) (hint : String) :
    Collected scope (before.declare (enumOf scope values hint)).enums := by
  rw [enums_declare]
  by_cases known : before.enums.any
      (·.constant == (fitted before.enums (enumOf scope values hint)).constant)
  · rw [if_pos known]
    exact h
  · rw [if_neg known]
    refine ⟨?_, ?_⟩
    · rw [List.map_append, List.nodup_append]
      refine ⟨h.distinct, List.nodup_singleton _, ?_⟩
      intro first member second only
      rw [List.map_singleton, List.mem_singleton] at only
      rintro rfl
      obtain ⟨earlier, inside, same⟩ := List.mem_map.1 member
      exact known (List.any_eq_true.2 ⟨earlier, inside, by simp [same, only]⟩)
    · intro other member
      rcases List.mem_append.1 member with earlier | new
      · exact h.named other earlier
      · obtain ⟨number, -, same, -⟩ := fitted_spec before.enums (enumOf scope values hint)
        exact ⟨values, hint, number, (List.mem_singleton.1 new).trans same⟩

/-- The constant that an enum is declared under lists its values. -/
theorem declared?_declare (before : State) (declaration : EnumDeclaration) :
    ∃ known,
      declared? (before.declare declaration).enums (fitted before.enums declaration).constant =
        some known ∧ known.values = declaration.values := by
  obtain ⟨number, -, same, fit⟩ := fitted_spec before.enums declaration
  rw [enums_declare]
  by_cases known : before.enums.any (·.constant == (fitted before.enums declaration).constant)
  · rw [if_pos known]
    have present : (declared? before.enums (fitted before.enums declaration).constant).isSome := by
      unfold declared?
      rw [List.find?_isSome]
      exact List.any_eq_true.1 known
    obtain ⟨earlier, found⟩ := Option.isSome_iff_exists.1 present
    refine ⟨earlier, found, ?_⟩
    rw [same] at found
    exact fits_iff.1 fit earlier found
  · rw [if_neg known]
    refine ⟨fitted before.enums declaration, ?_, by rw [same]; rfl⟩
    unfold declared?
    rw [List.find?_append]
    have absent : before.enums.find?
        (·.constant == (fitted before.enums declaration).constant) = none := by
      rw [List.find?_eq_none]
      intro other member is
      exact known (List.any_eq_true.2 ⟨other, member, is⟩)
    rw [absent]
    simp

/-- Enums declared later leave the declarations of known constants as they are. -/
theorem declared?_of_prefix {enums more : List EnumDeclaration} (ahead : enums <+: more)
    {constant : String} {known : EnumDeclaration} (found : declared? enums constant = some known) :
    declared? more constant = some known := by
  obtain ⟨later, rfl⟩ := ahead
  unfold declared? at found ⊢
  rw [List.find?_append, found]
  rfl

@[simp] theorem enums_degrade {before : State} {owner path shape : String} :
    (before.degrade owner path shape).enums = before.enums := rfl

@[simp] theorem enums_visit {before : State} {target : String} :
    (before.visit scope target).enums = before.enums := by
  unfold State.visit State.close State.refer
  split
  · split <;> rfl
  · split <;> rfl

/-- A mapping keeps the enums that are there and collects further ones. -/
structure Extends (scope : Scope) (before after : State) : Prop where
  ahead : before.enums <+: after.enums
  collected : Collected scope before.enums → Collected scope after.enums

theorem Extends.of_eq {before after : State} (same : after.enums = before.enums) :
    Extends scope before after :=
  ⟨same ▸ List.prefix_refl _, fun collected => same ▸ collected⟩

theorem Extends.trans {before middle after : State} (first : Extends scope before middle)
    (second : Extends scope middle after) : Extends scope before after :=
  ⟨first.ahead.trans second.ahead, fun collected => second.collected (first.collected collected)⟩

theorem extends_mapString {facets : Schema.StringFacets} {hint : String} {before after : State}
    {value : Mapped} (h : Yields (mapString scope facets hint) before value after) :
    Extends scope before after := by
  rcases yields_mapString h with ⟨-, rfl, -⟩ | ⟨literal, -, rfl, -⟩ | ⟨-, rfl, -⟩
  · exact .of_eq rfl
  · exact .of_eq rfl
  · exact ⟨enums_prefix_declare _ _, fun collected => collected.declare _ _⟩

theorem extends_rules : Rules scope (fun _ _ _ before _ after => Extends scope before after)
    (fun _ _ _ _ _ before _ after => Extends scope before after) where
  string run := extends_mapString run
  number := .of_eq rfl
  boolean := .of_eq rfl
  null := .of_eq rfl
  emptyObject := .of_eq rfl
  dictionary _ _ ih := ih
  literalObject _ := .of_eq rfl
  record _ ih := ih
  untypedArray := .of_eq rfl
  array _ ih := ih
  oneOf _ ih := ih
  ref _ := .of_eq enums_visit
  done := .of_eq rfl
  skip _ ih := ih
  next _ _ first rest := first.trans rest

theorem extends_mapValue {schema : Schema} {hint path : String} {before after : State}
    {value : Mapped} (h : Yields (mapValue scope schema hint path) before value after) :
    Extends scope before after :=
  extends_rules.hold schema h

theorem isWordChar_of_mem_numbered {name : String} (word : ∀ c ∈ name.toList, Code.isWordChar c)
    (number : Nat) : ∀ c ∈ (Model.numbered name number).toList, Code.isWordChar c := by
  obtain ⟨digits, letters, all, -⟩ := Model.exists_digits name number
  rw [letters]
  intro c member
  rcases List.mem_append.1 member with inside | digit
  · exact word c inside
  · exact Naming.isWordChar_of_isAlphanum (isAlphanum_of_isDigit (all c digit))

section Names

variable {enums : List EnumDeclaration} (collected : Collected scope enums)

include collected

/-- The constant of a collected enum begins with a lower-case letter or an underscore. -/
theorem Collected.constant_start {known : EnumDeclaration} (member : known ∈ enums) :
    ∃ c rest, known.constant.toList = c :: rest ∧ (c.isLower ∨ c = '_') := by
  obtain ⟨values, hint, number, rfl⟩ := collected.named known member
  obtain ⟨c, rest, first, start⟩ := Naming.enumConstantName_start scope.owner hint
  obtain ⟨digits, letters, -⟩ :=
    Model.exists_digits (Naming.enumConstantName scope.owner hint) number
  rw [first] at letters
  exact ⟨c, rest ++ digits, letters, start⟩

/-- The type of a collected enum begins with a capital letter or a digit, if it is not empty. -/
theorem Collected.type_start {known : EnumDeclaration} (member : known ∈ enums) {type : String}
    (has : known.type = some type) {c : Char} {rest : List Char} (first : type.toList = c :: rest) :
    c.isUpper ∨ c.isDigit := by
  obtain ⟨values, hint, number, rfl⟩ := collected.named known member
  rw [EnumDeclaration.type_numbered, enumOf] at has
  obtain ⟨base, declared, rfl⟩ := Option.map_eq_some_iff.1 has
  have same : Naming.enumTypeName scope.owner hint = base := by
    by_cases empty : hint.isEmpty
    · simp [empty] at declared
    · simpa [empty] using declared
  obtain ⟨digits, letters, all, -⟩ := Model.exists_digits base number
  rw [letters] at first
  cases own : base.toList with
  | nil =>
    rw [own, List.nil_append] at first
    exact Or.inr (all c (first ▸ List.mem_cons_self))
  | cons d rest' =>
    rw [own, List.cons_append, List.cons.injEq] at first
    exact Naming.enumTypeName_start (same ▸ first.1 ▸ own)

/-- The constant of a collected enum is an identifier. -/
theorem Collected.isWordChar_constant {known : EnumDeclaration} (member : known ∈ enums) :
    ∀ c ∈ known.constant.toList, Code.isWordChar c := by
  obtain ⟨values, hint, number, rfl⟩ := collected.named known member
  exact isWordChar_of_mem_numbered (fun c => Naming.isWordChar_of_mem_enumConstantName) number

/-- All constants have one letter in common. -/
theorem Collected.mem_constant {known : EnumDeclaration} (member : known ∈ enums) :
    'O' ∈ known.constant.toList := by
  obtain ⟨values, hint, number, rfl⟩ := collected.named known member
  have inside : 'O' ∈ (Naming.enumConstantName scope.owner hint).toList := by
    rw [Naming.enumConstantName, String.toList_append]
    exact List.mem_append_right _ (List.mem_cons_self : 'O' ∈ 'O' :: "ptions".toList)
  obtain ⟨digits, letters, -⟩ :=
    Model.exists_digits (Naming.enumConstantName scope.owner hint) number
  show 'O' ∈ (Model.numbered (Naming.enumConstantName scope.owner hint) number).toList
  rw [letters]
  exact List.mem_append_left _ inside

/-- No constant is the type of an enum. -/
theorem Collected.constant_ne_type {known other : EnumDeclaration} (member : known ∈ enums)
    (member' : other ∈ enums) : other.type ≠ some known.constant := by
  intro has
  obtain ⟨c, rest, first, start⟩ := collected.constant_start member
  have start' := collected.type_start member' has first
  rw [isUpper_iff, isDigit_iff] at start'
  rcases start with lower | rfl
  · rw [isLower_iff] at lower
    omega
  · have underscore : ('_' : Char).toNat = 95 := rfl
    omega

end Names

end ZodModules.Mapping
