import ZodModules.Proofs.Expr.MappingEnums
import ZodModules.Proofs.Text.Joined

/-!
# Texts of types

In the text of a type that a schema maps to each string literal that begins ends too: names have no
quotes, and all other text is quoted.
-/

namespace ZodModules

open Code (IsNeat)
open Model (EnumDeclaration)

namespace TypeExpr

theorem isNeat_nullable {flag : Bool} {type : TypeExpr} (neat : IsNeat type.text.toList) :
    IsNeat (type.nullable flag).text.toList := by
  cases flag with
  | false => exact neat
  | true =>
    show IsNeat (type.text ++ " | null").toList
    rw [String.toList_append]
    exact neat.append (Code.isNeat_of_all rfl)

theorem isNeat_between {first last : String} {type : TypeExpr} (before : IsNeat first.toList)
    (neat : IsNeat type.text.toList) (after : IsNeat last.toList) :
    IsNeat (first ++ type.text ++ last).toList := by
  rw [String.toList_append, String.toList_append]
  exact (before.append neat).append after

theorem textAll_eq_map (members : List TypeExpr) : textAll members = members.map text := by
  induction members with
  | nil => rfl
  | cons member rest ih =>
    show member.text :: textAll rest = _
    rw [ih, List.map_cons]

end TypeExpr

namespace Mapping

variable {scope : Scope}

theorem isNeat_enumType {declaration : EnumDeclaration} {owner hint : String} {number : Nat}
    (constant : declaration.constant = Model.numbered (Naming.enumConstantName owner hint) number)
    (type : ∀ name, declaration.type = some name →
      name = Model.numbered (Naming.enumTypeName owner hint) number) :
    IsNeat (enumValue declaration).type.text.toList := by
  unfold enumValue
  cases has : declaration.type with
  | none =>
    show IsNeat ("(typeof " ++ declaration.constant ++ ")[number]").toList
    rw [constant, String.toList_append, String.toList_append]
    have first : IsNeat "(typeof ".toList := Code.isNeat_of_all rfl
    have last : IsNeat ")[number]".toList := Code.isNeat_of_all rfl
    refine (first.append (Code.isNeat_of_isWordChar ?_)).append last
    exact isWordChar_of_mem_numbered (fun c => Naming.isWordChar_of_mem_enumConstantName) number
  | some name =>
    show IsNeat name.toList
    rw [type name has]
    exact Code.isNeat_of_isWordChar
      (isWordChar_of_mem_numbered (fun c => Naming.isWordChar_of_mem_enumTypeName) number)

theorem isNeat_type_mapString {facets : Schema.StringFacets} {hint : String} {before after : State}
    {value : Mapped} (run : Yields (mapString scope facets hint) before value after) :
    IsNeat value.type.text.toList := by
  rcases yields_mapString run with ⟨-, -, rfl⟩ | ⟨literal, -, -, rfl⟩ | ⟨-, -, rfl⟩
  · show IsNeat "string".toList
    exact Code.isNeat_of_all rfl
  · exact Code.isNeat_quote literal
  · obtain ⟨number, -, same, -⟩ := fitted_spec before.enums (enumOf scope facets.literals hint)
    rw [same]
    refine isNeat_enumType rfl fun name has => ?_
    rw [Model.EnumDeclaration.type_numbered, enumOf] at has
    obtain ⟨base, declared, rfl⟩ := Option.map_eq_some_iff.1 has
    by_cases empty : hint.isEmpty
    · rw [if_pos empty] at declared
      cases declared
    · rw [if_neg empty] at declared
      exact congrArg (Model.numbered · number) (Option.some.inj declared).symm

theorem isNeat_number : IsNeat TypeExpr.number.text.toList :=
  (Code.isNeat_of_all rfl : IsNeat "number".toList)

theorem isNeat_boolean : IsNeat TypeExpr.boolean.text.toList :=
  (Code.isNeat_of_all rfl : IsNeat "boolean".toList)

theorem isNeat_null : IsNeat TypeExpr.null.text.toList :=
  (Code.isNeat_of_all rfl : IsNeat "null".toList)

theorem isNeat_unknownValue : IsNeat unknownValue.type.text.toList :=
  (Code.isNeat_of_all rfl : IsNeat "any".toList)

theorem isNeat_recordOf {value : Mapped} (neat : IsNeat value.type.text.toList) :
    IsNeat (recordOf value).type.text.toList := by
  have first : IsNeat "Record<string, ".toList := Code.isNeat_of_all rfl
  have last : IsNeat ">".toList := Code.isNeat_of_all rfl
  exact TypeExpr.isNeat_between first (TypeExpr.isNeat_nullable neat) last

theorem isNeat_arrayOf {item : Mapped} (neat : IsNeat item.type.text.toList) :
    IsNeat (arrayOf item).type.text.toList := by
  have first : IsNeat "Array<".toList := Code.isNeat_of_all rfl
  have last : IsNeat ">".toList := Code.isNeat_of_all rfl
  exact TypeExpr.isNeat_between first (TypeExpr.isNeat_nullable neat) last

theorem isNeat_unionOf {discriminator : Option String} {values : List Mapped}
    (all : ∀ value ∈ values, IsNeat value.type.text.toList) :
    IsNeat (unionOf scope discriminator values).type.text.toList := by
  rcases values with _ | ⟨first, _ | ⟨second, rest⟩⟩
  · exact isNeat_null
  · exact all first List.mem_cons_self
  · have between : IsNeat " | ".toList := Code.isNeat_of_all rfl
    show IsNeat (" | ".intercalate (TypeExpr.textAll _)).toList
    rw [String.toList_intercalate, TypeExpr.textAll_eq_map, List.map_map, List.map_map, List.map_map]
    refine Code.isNeat_intercalate between fun part member => ?_
    obtain ⟨value, inside, rfl⟩ := List.mem_map.1 member
    exact TypeExpr.isNeat_nullable (all value inside)

theorem isNeat_type_rules : Rules scope (fun _ _ _ _ value _ => IsNeat value.type.text.toList)
    (fun _ _ _ _ _ _ values _ => ∀ value ∈ values, IsNeat value.type.text.toList) where
  string run := by
    have neat := isNeat_type_mapString run
    exact neat
  number := isNeat_number
  boolean := isNeat_boolean
  null := isNeat_null
  emptyObject := isNeat_unknownValue
  dictionary _ _ ih := isNeat_recordOf ih
  literalObject _ := isNeat_unknownValue
  record _ ih := isNeat_recordOf ih
  untypedArray := isNeat_arrayOf isNeat_unknownValue
  array _ ih := isNeat_arrayOf ih
  oneOf _ ih := isNeat_unionOf ih
  ref _ := Code.isNeat_of_isWordChar fun _ => Naming.isWordChar_of_mem_typeName
  done := fun value member => absurd member List.not_mem_nil
  skip _ ih := ih
  next _ _ first rest := List.forall_mem_cons.2 ⟨first, rest⟩

/-- In the text of the type of a mapped value no string literal stays open. -/
theorem isNeat_type_mapValue {schema : Schema} {hint path : String} {before after : State}
    {value : Mapped} (run : Yields (mapValue scope schema hint path) before value after) :
    IsNeat value.type.text.toList :=
  isNeat_type_rules.hold schema run

end Mapping

end ZodModules
