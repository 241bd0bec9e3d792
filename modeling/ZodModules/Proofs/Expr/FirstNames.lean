import ZodModules.Proofs.Expr.MappingContexts

/-!
# First names of enums

A string with several literals asks for a constant and, if it has a hint, for a type. Only the
constant decides whether it gets both, and whether it shares the declaration of another string. As
the constant tells the type and the type tells the constant, the type would decide the same: what
is found under a constant has the type that goes with it, and what has the type is found there.
-/

namespace ZodModules.Mapping

open Model (EnumDeclaration)

variable {scope : Scope}

/-- What a task comes to a string with goes on from the notes that the task starts with. -/
theorem Meets.further {string : Occurrence} {task : Task} {before : State}
    (meets : Meets scope string task before) : Extends scope before string.before := by
  induction meets with
  | here => exact .of_eq rfl
  | dictionary _ _ ih | record _ ih | array _ ih | oneOf _ ih => exact ih
  | skip _ _ ih | first _ _ ih => exact ih
  | later _ run _ ih => exact (extends_mapValue run).trans ih

theorem Met.collected {calls : List Call} {string : Occurrence} (met : Met scope calls string) :
    Collected scope string.before.enums := by
  obtain ⟨earlier, call, later, -, meets⟩ := met
  exact meets.further.collected (collected_context earlier)

/-- A collected enum is found under its constant. -/
theorem Collected.declared?_constant {enums : List EnumDeclaration}
    (collected : Collected scope enums) {known : EnumDeclaration} (member : known ∈ enums) :
    declared? enums known.constant = some known := by
  rw [declared?, ← List.head?_filter, collected.only member, List.head?_cons]

/-- An enum keeps the names that it asks for just if these fit. -/
theorem fitted_eq_self_iff {enums : List EnumDeclaration} {declaration : EnumDeclaration} :
    fitted enums declaration = declaration ↔ fits enums declaration := by
  constructor
  · intro kept
    obtain ⟨number, -, numbered, fit⟩ := fitted_spec enums declaration
    rw [← numbered, kept] at fit
    exact fit
  · intro fit
    have least : (List.range' 1 (enums.length + 1)).find?
        (fun n => fits enums (declaration.numbered n)) = some 1 := by
      rw [List.range'_succ, List.find?_cons_of_pos]
      rwa [EnumDeclaration.numbered_one]
    rw [fitted, least]
    exact EnumDeclaration.numbered_one declaration

/-- A string is used under the names that it asks for. -/
def Occurrence.KeepsNames (scope : Scope) (string : Occurrence) : Prop :=
  string.used scope = string.enum scope

instance (string : Occurrence) : Decidable (string.KeepsNames scope) :=
  inferInstanceAs (Decidable (string.used scope = string.enum scope))

/-- An enum is declared under the names, one of them a type, that a string asks for. -/
def IsFirstChoice (scope : Scope) (known : EnumDeclaration) : Prop :=
  ∃ string : Occurrence, string.hint ≠ "" ∧ known = string.enum scope

/-- Strings with hints ask for one constant just if they ask for one type. -/
theorem constant_enum_eq_iff {string other : Occurrence} (hint : string.hint ≠ "")
    (hint' : other.hint ≠ "") :
    (string.enum scope).constant = (other.enum scope).constant ↔
      (string.enum scope).type = (other.enum scope).type := by
  rw [type_enum hint, type_enum hint', Option.some.injEq]
  exact Naming.enumTypeName_eq_iff.symm

/-- An enum with a type has the names that it asked for if its constant is asked for: the constants
with a number are not. -/
theorem Collected.isFirstChoice {enums : List EnumDeclaration} (collected : Collected scope enums)
    {known : EnumDeclaration} (member : known ∈ enums) (typed : known.type ≠ none)
    {string : Occurrence} (constant : known.constant = (string.enum scope).constant) :
    IsFirstChoice scope known := by
  obtain ⟨values, hint, number, rfl⟩ := collected.named known member
  have asked : Model.numbered (Naming.enumConstantName scope.owner hint) number =
      Model.numbered (Naming.enumConstantName scope.owner string.hint) 1 := constant
  obtain ⟨-, rfl⟩ := Naming.enumConstantName_of_numbered asked
  rw [EnumDeclaration.numbered_one] at typed ⊢
  refine ⟨⟨{ literals := values }, hint, ∅⟩, ?_, rfl⟩
  rintro rfl
  exact typed rfl

/-- What is found under the constant that a string with a hint asks for, if it has a type, is what
asked for the same type. -/
theorem Collected.found_iff {enums : List EnumDeclaration} (collected : Collected scope enums)
    {string : Occurrence} (hint : string.hint ≠ "") (known : EnumDeclaration) :
    declared? enums (string.enum scope).constant = some known ∧ known.type ≠ none ↔
      known ∈ enums ∧ IsFirstChoice scope known ∧ known.type = (string.enum scope).type := by
  constructor
  · rintro ⟨found, typed⟩
    obtain ⟨member, constant⟩ := constant_of_declared? found
    obtain ⟨other, hint', rfl⟩ := collected.isFirstChoice member typed constant
    exact ⟨member, ⟨other, hint', rfl⟩, (constant_enum_eq_iff hint' hint).1 constant⟩
  · rintro ⟨member, ⟨other, hint', rfl⟩, type⟩
    rw [← (constant_enum_eq_iff hint' hint).2 type]
    refine ⟨collected.declared?_constant member, ?_⟩
    rw [type_enum hint']
    exact Option.some_ne_none _

/-- A string keeps its names just if what is found under its constant lists its literals. -/
theorem keepsNames_iff {string : Occurrence} :
    string.KeepsNames scope ↔
      ∀ known, declared? string.before.enums (string.enum scope).constant = some known →
        known.values = string.facets.literals :=
  fitted_eq_self_iff.trans fits_iff

/-- Strings that are met and keep one constant have one declaration. -/
theorem Met.enum_eq_of_constant {calls : List Call} {string other : Occurrence}
    (met : Met scope calls string) (met' : Met scope calls other) (hint : string.hint ≠ "")
    (hint' : other.hint ≠ "") (kept : string.KeepsNames scope) (kept' : other.KeepsNames scope)
    (constant : (string.enum scope).constant = (other.enum scope).constant) :
    string.enum scope = other.enum scope := by
  have type := (constant_enum_eq_iff hint hint').1 constant
  -- The constant is declared once, so it has the literals of both.
  obtain ⟨known, values, since⟩ := exists_declared scope string
  obtain ⟨known', values', since'⟩ := exists_declared scope other
  have found := since calls met
  rw [kept, constant, ← kept', since' calls met'] at found
  obtain rfl := Option.some.inj found
  have literals : string.facets.literals = other.facets.literals := values.symm.trans values'
  exact (EnumDeclaration.mk.injEq ..).mpr ⟨constant, type, literals⟩

/-- Enums have one constant just if they have one type. So among the enums of a context a string
with a hint finds under its constant, if that has a type, just what asked for its type, and by
the literals of what it finds there it keeps its names or takes a number. Strings that keep their
names have one constant just if they have one type, and then they have one declaration. -/
theorem constants_decide_as_types (scope : Scope) (calls : List Call) :
    (∀ schema property schema' property' : String,
      Naming.enumConstantName schema property = Naming.enumConstantName schema' property' ↔
        Naming.enumTypeName schema property = Naming.enumTypeName schema' property') ∧
    (∀ string : Occurrence, Met scope calls string → string.hint ≠ "" →
      (∀ known, declared? string.before.enums (string.enum scope).constant = some known ∧
          known.type ≠ none ↔
        known ∈ string.before.enums ∧ IsFirstChoice scope known ∧
          known.type = (string.enum scope).type) ∧
      (string.KeepsNames scope ↔
        ∀ known, declared? string.before.enums (string.enum scope).constant = some known →
          known.values = string.facets.literals)) ∧
    ∀ string other : Occurrence, Met scope calls string → Met scope calls other →
      string.hint ≠ "" → other.hint ≠ "" →
      string.KeepsNames scope → other.KeepsNames scope →
      ((string.used scope).constant = (other.used scope).constant ↔
        (string.used scope).type = (other.used scope).type) ∧
      ((string.used scope).type = (other.used scope).type → string.used scope = other.used scope)
    := by
  refine ⟨fun _ _ _ _ => Naming.enumTypeName_eq_iff.symm, ?_, ?_⟩
  · intro string met hint
    exact ⟨met.collected.found_iff hint, keepsNames_iff⟩
  · intro string other met met' hint hint' kept kept'
    have own : string.used scope = string.enum scope := kept
    have own' : other.used scope = other.enum scope := kept'
    rw [own, own']
    refine ⟨constant_enum_eq_iff hint hint', ?_⟩
    intro type
    have constant := (constant_enum_eq_iff hint hint').2 type
    exact met.enum_eq_of_constant met' hint hint' kept kept' constant

/-- A schema whose enums have types that begin with a digit, and constants with a guarded start. -/
def twoFactorScope : Scope := ⟨"2fa", ∅, ∅, "ValidationSchema", false⟩

def modeCall (hint : String) : Call := ⟨enumSchema ["sms", "app"], hint, hint⟩

/-- Two modes whose hints differ in the case of a letter and in a space, which makes for an empty
word. -/
def modes : List Call := [modeCall "mode", modeCall " Mode"]

/-- The mode that is mapped after some others. -/
def modeAfter (calls : List Call) (hint : String) : Occurrence :=
  ⟨{ literals := ["sms", "app"] }, hint, context twoFactorScope calls⟩

/-- The modes keep their names, which are the same, and share a declaration. -/
theorem constants_decide_modes :
    ∃ first second : Occurrence, Met twoFactorScope modes first ∧ Met twoFactorScope modes second ∧
      first.hint = "mode" ∧ second.hint = " Mode" ∧
      first.KeepsNames twoFactorScope ∧ second.KeepsNames twoFactorScope ∧
      (first.used twoFactorScope).constant = "_2FaModeOptions" ∧
      (first.used twoFactorScope).type = some "2FaMode" ∧
      first.used twoFactorScope = second.used twoFactorScope := by
  obtain ⟨-, -, share⟩ := constants_decide_as_types twoFactorScope modes
  have met : Met twoFactorScope modes (modeAfter [] "mode") :=
    ⟨[], _, _, rfl, .here (Nat.le_refl 2)⟩
  have met' : Met twoFactorScope modes (modeAfter [modeCall "mode"] " Mode") :=
    ⟨[modeCall "mode"], _, _, rfl, .here (Nat.le_refl 2)⟩
  have kept : (modeAfter [] "mode").KeepsNames twoFactorScope := by decide +kernel
  have kept' : (modeAfter [modeCall "mode"] " Mode").KeepsNames twoFactorScope := by decide +kernel
  have constants : ((modeAfter [] "mode").used twoFactorScope).constant =
      ((modeAfter [modeCall "mode"] " Mode").used twoFactorScope).constant := by decide +kernel
  have named := share _ _ met met' (by decide) (by decide) kept kept'
  exact ⟨_, _, met, met', rfl, rfl, kept, kept', by decide +kernel, by decide +kernel,
    named.2 (named.1.1 constants)⟩

end ZodModules.Mapping
