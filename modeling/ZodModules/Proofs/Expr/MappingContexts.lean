import ZodModules.Proofs.Data.Listings
import ZodModules.Proofs.Expr.MappingTasks
import ZodModules.Proofs.Naming.EnumTypes

/-!
# Enums of a context

Any values may be mapped one after another with the notes of one schema, and some of them may fail.
Each string with several literals that is met on the way is declared from then on, once and with
these literals, under the constant that it is used under. It may be used under a type that the
declaration lacks, if the constant was declared for a string without a hint, or that another
declaration has as well, if a number runs into a name.
-/

namespace ZodModules.Mapping

open Model (EnumDeclaration)

variable {scope : Scope}

/-- A value that is to be mapped, with the hint and the path that it gets. -/
structure Call where
  schema : Schema
  hint : String
  path : String

def Call.task (call : Call) : Task := .value call.schema call.hint call.path

/-- The notes on some values mapped one after another, each whether it succeeds or fails. -/
def context (scope : Scope) (calls : List Call) : State :=
  calls.foldl (fun state call => call.task.after scope state) ∅

theorem context_concat (calls : List Call) (call : Call) :
    context scope (calls ++ [call]) = call.task.after scope (context scope calls) := by
  unfold context
  rw [List.foldl_append]
  rfl

theorem extends_context (calls more : List Call) :
    Extends scope (context scope calls) (context scope (calls ++ more)) := by
  induction more generalizing calls with
  | nil =>
    rw [List.append_nil]
    exact .of_eq rfl
  | cons call more ih =>
    have one : Extends scope (context scope calls) (context scope (calls ++ [call])) := by
      rw [context_concat]
      exact (adds_value call.schema).further
    have rest := ih (calls ++ [call])
    rw [List.append_assoc] at rest
    exact one.trans rest

theorem collected_context (calls : List Call) : Collected scope (context scope calls).enums :=
  (extends_context [] calls).collected collected_nil

/-- One of some values mapped one after another comes to a string with several literals. -/
def Met (scope : Scope) (calls : List Call) (string : Occurrence) : Prop :=
  ∃ earlier call later, calls = earlier ++ call :: later ∧
    Meets scope string call.task (context scope earlier)

/-- All enums of a context are those of the strings that were met. -/
theorem met_of_mem_context {calls : List Call} {known : EnumDeclaration}
    (member : known ∈ (context scope calls).enums) :
    ∃ string, Met scope calls string ∧ known = string.used scope := by
  induction calls using List.reverseRecOn with
  | nil => cases member
  | append_singleton calls call ih =>
    rw [context_concat] at member
    by_cases earlier : known ∈ (context scope calls).enums
    · obtain ⟨string, ⟨before, call', later, rfl, meets⟩, names⟩ := ih earlier
      exact ⟨string, ⟨before, call', later ++ [call], by simp, meets⟩, names⟩
    · obtain ⟨string, meets, names⟩ := (adds_value call.schema).origin known member earlier
      exact ⟨string, ⟨calls, call, [], rfl, meets⟩, names⟩

theorem Met.mono {before calls : List Call} {string : Occurrence} (ahead : before <+: calls)
    (met : Met scope before string) : Met scope calls string := by
  obtain ⟨more, rfl⟩ := ahead
  obtain ⟨earlier, call, later, rfl, meets⟩ := met
  exact ⟨earlier, call, later ++ more, by simp, meets⟩

/-- A string maps to the names that it is used under. -/
theorem Met.value_eq {calls : List Call} {string : Occurrence} (met : Met scope calls string)
    {value : Mapped} {after : State}
    (run : Yields (mapString scope string.facets string.hint) string.before value after) :
    value = enumValue (string.used scope) := by
  obtain ⟨earlier, call, later, -, meets⟩ := met
  have several := meets.several
  rcases yields_mapString run with ⟨unlisted, -⟩ | ⟨literal, one, -⟩ | ⟨-, -, same⟩
  · simp [unlisted] at several
  · simp [one] at several
  · exact same

/-- What a string that is met maps to. -/
theorem Met.exists_run {calls : List Call} {string : Occurrence} (met : Met scope calls string) :
    ∃ after, Yields (mapString scope string.facets string.hint) string.before
      (enumValue (string.used scope)) after := by
  rcases yields_or_fails (mapString scope string.facets string.hint) string.before with
    ⟨value, after, run⟩ | ⟨e, failed⟩
  · exact ⟨after, met.value_eq run ▸ run⟩
  · exact absurd failed not_fails_mapString

/-- One declaration with its literals stands for a string in all contexts since it was met. -/
theorem exists_declared (scope : Scope) (string : Occurrence) :
    ∃ known, known.values = string.facets.literals ∧ ∀ calls, Met scope calls string →
      declared? (context scope calls).enums (string.used scope).constant = some known := by
  obtain ⟨known, found, values⟩ := declared?_declare string.before (string.enum scope)
  refine ⟨known, values, ?_⟩
  rintro calls ⟨earlier, call, later, rfl, meets⟩
  have ends : (call.task.after scope (context scope earlier)).enums <+:
      (context scope (earlier ++ call :: later)).enums := by
    have rest : Extends scope _ _ := extends_context (earlier ++ [call]) later
    rw [context_concat, List.append_assoc] at rest
    exact rest.ahead
  exact declared?_of_prefix (meets.declared.trans ends) found

/-- A declaration is the one, among some enums, of the constant that a string is used under, and it
has the literals of the string. -/
structure Listed (enums : List EnumDeclaration) (string : Occurrence) (value : Mapped)
    (declaration : EnumDeclaration) : Prop where
  validator : value.validator = .enum declaration.constant
  shape : value.shape = .enum declaration.constant
  values : declaration.values = string.facets.literals
  only : enums.filter (·.constant == declaration.constant) = [declaration]

/-- The same, and it is the one of the type that the string is used under, if it has a hint. -/
structure Clear (enums : List EnumDeclaration) (string : Occurrence) (value : Mapped)
    (declaration : EnumDeclaration) : Prop extends Listed enums string value declaration where
  type : string.hint ≠ "" → ∃ type, declaration.type = some type ∧ value.type = .named type ∧
    enums.filter (·.type == some type) = [declaration]

/-- Each string with several literals that is met is mapped to a value, and there is a declaration
in a relation to both in all contexts since then. -/
def Throughout (scope : Scope) (calls : List Call)
    (relation : List EnumDeclaration → Occurrence → Mapped → EnumDeclaration → Prop) : Prop :=
  ∀ string, Met scope calls string → ∃ value after declaration,
    Yields (mapString scope string.facets string.hint) string.before value after ∧
      ∀ earlier, earlier <+: calls → Met scope earlier string →
        relation (context scope earlier).enums string value declaration

/-- A collected enum is the only one with its constant. -/
theorem Collected.only {enums : List EnumDeclaration} (collected : Collected scope enums)
    {known : EnumDeclaration} (member : known ∈ enums) :
    enums.filter (·.constant == known.constant) = [known] := by
  have distinct := collected.distinct
  rw [← List.filterMap_eq_map'] at distinct
  have alone := Listing.nodup_filterMap_iff.1 distinct known member known.constant rfl
  simpa using alone

theorem Collected.eq_of_constant {enums : List EnumDeclaration} (collected : Collected scope enums)
    {known other : EnumDeclaration} (member : known ∈ enums) (member' : other ∈ enums)
    (same : known.constant = other.constant) : known = other :=
  List.inj_on_of_nodup_map collected.distinct member member' same

theorem listed_of_declared {calls : List Call} {string : Occurrence} {known : EnumDeclaration}
    (values : known.values = string.facets.literals)
    (found : declared? (context scope calls).enums (string.used scope).constant = some known) :
    Listed (context scope calls).enums string (enumValue (string.used scope)) known := by
  obtain ⟨member, constant⟩ := constant_of_declared? found
  refine ⟨?_, ?_, values, (collected_context calls).only member⟩
  · rw [constant]
    rfl
  · rw [constant]
    rfl

/-- The constants of strings are always clear. -/
theorem throughout_listed (scope : Scope) (calls : List Call) : Throughout scope calls Listed := by
  intro string met
  obtain ⟨after, run⟩ := met.exists_run
  obtain ⟨known, values, found⟩ := exists_declared scope string
  refine ⟨_, after, known, run, ?_⟩
  intro earlier ahead met'
  exact listed_of_declared values (found earlier met')

/-- The enum of a string with a hint has a type. -/
theorem type_enum {string : Occurrence} (hint : string.hint ≠ "") :
    (string.enum scope).type = some (Naming.enumTypeName scope.owner string.hint) :=
  if_neg (mt String.isEmpty_iff.1 hint)

theorem used_eq_numbered (scope : Scope) (string : Occurrence) :
    ∃ number, string.used scope = (string.enum scope).numbered number := by
  obtain ⟨number, -, used, -⟩ := fitted_spec string.before.enums (string.enum scope)
  exact ⟨number, used⟩

theorem hint_ne_of_type {string : Occurrence} {type : String}
    (has : (string.used scope).type = some type) : string.hint ≠ "" := by
  obtain ⟨number, used⟩ := used_eq_numbered scope string
  intro empty
  rw [used, Occurrence.enum, enumOf, empty] at has
  cases has

/-- The declaration of the constant that a string with a hint is used under has the type that the
string is used under, unless it was declared for the owner and the hint adds no word to that. -/
theorem type_of_constant {enums : List EnumDeclaration} (collected : Collected scope enums)
    {known : EnumDeclaration} (member : known ∈ enums) {string : Occurrence}
    (hint : string.hint ≠ "") (constant : known.constant = (string.used scope).constant) :
    known.type = (string.used scope).type ∨
      known.type = none ∧ Naming.enumConstantName scope.owner string.hint =
        Naming.enumConstantName scope.owner "" := by
  obtain ⟨values, hint', number', rfl⟩ := collected.named known member
  obtain ⟨number, used⟩ := used_eq_numbered scope string
  rw [used] at constant ⊢
  obtain ⟨names, numbers⟩ := Naming.enumConstantName_of_numbered constant
  by_cases empty : hint' = ""
  · rw [empty] at names ⊢
    exact Or.inr ⟨rfl, names.symm⟩
  · left
    rw [EnumDeclaration.type_numbered, EnumDeclaration.type_numbered, type_enum hint,
      ← Naming.enumTypeName_eq_iff.2 names, numbers]
    exact congrArg (Option.map _) (if_neg (mt String.isEmpty_iff.1 empty))

/-- Two strings are used under one type, but not under one constant. -/
structure Clash (scope : Scope) (string other : Occurrence) : Prop where
  type : (string.used scope).type = (other.used scope).type
  constant : (string.used scope).constant ≠ (other.used scope).constant

/-- Types clash only if different numbers make different types one. -/
theorem Clash.runs_into {string other : Occurrence} (clash : Clash scope string other)
    (hint : string.hint ≠ "") (hint' : other.hint ≠ "") :
    (string.enum scope).type ≠ (other.enum scope).type ∧
      ∃ number number', number ≠ number' ∧
        string.used scope = (string.enum scope).numbered number ∧
        other.used scope = (other.enum scope).numbered number' := by
  obtain ⟨number, used⟩ := used_eq_numbered scope string
  obtain ⟨number', used'⟩ := used_eq_numbered scope other
  have types := clash.type
  have constants := clash.constant
  rw [used, used', EnumDeclaration.type_numbered, EnumDeclaration.type_numbered, type_enum hint,
    type_enum hint', Option.map_some, Option.map_some, Option.some.injEq] at types
  rw [used, used', EnumDeclaration.constant_numbered, EnumDeclaration.constant_numbered] at constants
  -- one type and one number would make one constant
  have same (names : Naming.enumTypeName scope.owner string.hint =
      Naming.enumTypeName scope.owner other.hint) (numbers : number = number') : False := by
    rw [numbers] at constants
    exact constants (congrArg (Model.numbered · number') (Naming.enumTypeName_eq_iff.1 names))
  refine ⟨?_, number, number', ?_, used, used'⟩
  · rw [type_enum hint, type_enum hint', ne_eq, Option.some.injEq]
    intro names
    rw [names] at types
    exact same names (Model.numbered_injective _ types)
  · intro numbers
    rw [numbers] at types
    exact same (Model.numbered_left_injective types) numbers

/-- The types of strings with a hint do not clash, and their constants are declared with one. -/
structure Apart (scope : Scope) (calls : List Call) : Prop where
  distinct : ∀ string other, Met scope calls string → Met scope calls other →
    string.hint ≠ "" → other.hint ≠ "" → ¬ Clash scope string other
  typed : ∀ string, Met scope calls string → string.hint ≠ "" →
    ∀ known ∈ (context scope calls).enums,
      known.constant = (string.used scope).constant → known.type ≠ none

section

variable {calls : List Call}

/-- If all is clear then there is one declaration in the end with the names of a string. -/
theorem exists_names_of_clear (clear : Throughout scope calls Clear) {string : Occurrence}
    (met : Met scope calls string) (hint : string.hint ≠ "") :
    ∃ declaration type, declaration.type = some type ∧
      (string.used scope).constant = declaration.constant ∧
      (string.used scope).type = some type ∧
      (context scope calls).enums.filter (·.constant == declaration.constant) = [declaration] ∧
      (context scope calls).enums.filter (·.type == some type) = [declaration] := by
  obtain ⟨value, after, declaration, run, since⟩ := clear string met
  have names := since calls (List.prefix_refl _) met
  rw [met.value_eq run] at names
  obtain ⟨type, typed, shown, alone⟩ := names.type hint
  refine ⟨declaration, type, typed, Validator.enum.inj names.validator, ?_, names.only, alone⟩
  obtain ⟨number, used⟩ := used_eq_numbered scope string
  rw [enumValue, used, EnumDeclaration.type_numbered, type_enum hint, Option.map_some] at shown
  rw [used, EnumDeclaration.type_numbered, type_enum hint, Option.map_some]
  exact congrArg some (TypeExpr.named.inj shown)

theorem Apart.of_clear (clear : Throughout scope calls Clear) : Apart scope calls where
  distinct string other met met' hint hint' clash := by
    obtain ⟨first, type, -, constant, has, -, alone⟩ := exists_names_of_clear clear met hint
    obtain ⟨second, type', -, constant', has', -, alone'⟩ := exists_names_of_clear clear met' hint'
    have same : type = type' := Option.some.inj (has.symm.trans (clash.type.trans has'))
    rw [same, alone', List.singleton_inj] at alone
    exact clash.constant (constant.trans (alone ▸ constant'.symm))
  typed string met hint known member constant := by
    obtain ⟨declaration, type, typed, own, -, only, -⟩ := exists_names_of_clear clear met hint
    have kept : known ∈ (context scope calls).enums.filter (·.constant == declaration.constant) :=
      List.mem_filter.2 ⟨member, beq_iff_eq.2 (constant.trans own)⟩
    rw [only, List.mem_singleton] at kept
    rw [kept, typed]
    exact Option.some_ne_none type

/-- If the enums are apart in the end then they were clear all the time. -/
theorem Apart.clear (apart : Apart scope calls) : Throughout scope calls Clear := by
  intro string met
  obtain ⟨after, run⟩ := met.exists_run
  obtain ⟨known, values, found⟩ := exists_declared scope string
  refine ⟨_, after, known, run, ?_⟩
  intro earlier ahead met'
  refine ⟨listed_of_declared values (found earlier met'), ?_⟩
  intro hint
  obtain ⟨member, constant⟩ := constant_of_declared? (found earlier met')
  have final : known ∈ (context scope calls).enums := by
    obtain ⟨more, rfl⟩ := ahead
    exact (extends_context earlier more).ahead.subset member
  have typed := apart.typed string met hint known final constant
  have own : known.type = (string.used scope).type :=
    (type_of_constant (collected_context earlier) member hint constant).resolve_right
      fun untyped => typed untyped.1
  obtain ⟨type, has⟩ := Option.ne_none_iff_exists'.1 typed
  refine ⟨type, has, ?_, ?_⟩
  · rw [enumValue, ← own, has]
    rfl
  · -- whatever has the type has the constant too, and the constant is the declaration's alone
    rw [← (collected_context earlier).only member]
    refine List.filter_congr ?_
    intro other inside
    rw [Bool.eq_iff_iff, beq_iff_eq, beq_iff_eq]
    constructor
    · intro type'
      obtain ⟨string', met'', rfl⟩ := met_of_mem_context inside
      by_contra different
      have clash : Clash scope string' string :=
        ⟨type'.trans (has.symm.trans own), fun same => different (same.trans constant.symm)⟩
      exact apart.distinct string' string (met''.mono ahead) met (hint_ne_of_type type') hint clash
    · intro constant'
      rw [(collected_context earlier).eq_of_constant inside member constant', has]

/-- If all is clear then no two enums of the context have one type. -/
theorem nodup_types_of_clear (clear : Throughout scope calls Clear) :
    ((context scope calls).enums.filterMap (·.type)).Nodup := by
  refine Listing.nodup_filterMap_iff.2 ?_
  intro known member type has
  obtain ⟨string, met, rfl⟩ := met_of_mem_context member
  obtain ⟨declaration, type', -, own, has', only, alone⟩ :=
    exists_names_of_clear clear met (hint_ne_of_type has)
  have kept : string.used scope ∈ (context scope calls).enums.filter
      (·.constant == declaration.constant) := List.mem_filter.2 ⟨member, beq_iff_eq.2 own⟩
  rw [only, List.mem_singleton] at kept
  rw [Option.some.inj (has.symm.trans has'), alone, kept]

end

/-- In any context the constant of a string is declared once, with its literals, from the time that
it was met. Its type is clear as well just if the enums are apart in the end. Types clash only if
different numbers make different types one, and a constant lacks a type only if the hint adds no
word to the owner. -/
theorem listed_and_clear_iff (scope : Scope) (calls : List Call) :
    Throughout scope calls Listed ∧
    (Throughout scope calls Clear ↔ Apart scope calls) ∧
    (∀ string other : Occurrence, string.hint ≠ "" → other.hint ≠ "" → Clash scope string other →
      (string.enum scope).type ≠ (other.enum scope).type ∧
        ∃ number number', number ≠ number' ∧
          string.used scope = (string.enum scope).numbered number ∧
          other.used scope = (other.enum scope).numbered number') ∧
    ∀ string : Occurrence, string.hint ≠ "" → ∀ known ∈ (context scope calls).enums,
      known.constant = (string.used scope).constant → known.type = none →
        Naming.enumConstantName scope.owner string.hint =
          Naming.enumConstantName scope.owner "" := by
  refine ⟨throughout_listed scope calls, ⟨Apart.of_clear, Apart.clear⟩, ?_, ?_⟩
  · intro string other hint hint' clash
    exact clash.runs_into hint hint'
  · intro string hint known member constant untyped
    rcases type_of_constant (collected_context calls) member hint constant with own | ⟨-, names⟩
    · obtain ⟨number, used⟩ := used_eq_numbered scope string
      rw [untyped, used, EnumDeclaration.type_numbered, type_enum hint] at own
      cases own
    · exact names

/-- A string that is one of some literals. -/
def enumSchema (values : List String) : Schema := .ofKind (.string { literals := values })

/-- Two tiers of a user, of which the first is one of two enums: the number of the second of them
runs into the name of the second tier. -/
def tiers : List Call :=
  [⟨.ofKind (.oneOf [enumSchema ["a", "b"], enumSchema ["c", "d"]] none), "tier", "tier"⟩,
    ⟨enumSchema ["e", "f"], "tier2", "tier2"⟩]

/-- Two enums of the user's tiers have one type. -/
theorem not_clear_tiers : ¬ Throughout ⟨"User", ∅, ∅, "ValidationSchema", false⟩ tiers Clear := by
  intro clear
  have distinct := nodup_types_of_clear clear
  revert distinct
  decide +kernel

end ZodModules.Mapping
