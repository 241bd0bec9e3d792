import ZodModules.Proofs.Expr.TypeTexts
import ZodModules.Proofs.Generation.ObjectTypes

/-!
# Places of references in types

Where the type of a property names the schema that its shape refers to: the whole type does for a
reference, and the type of the items for an array. A type that a schema maps to has the name there,
and renaming identifiers renames the name in its place.
-/

namespace ZodModules

open Code (IsNeat IsIdentifier Breaks renameFrom newName)
open Generation (nullEnd toList_nullableType)

namespace Shape

/-- The schema that a shape refers to, itself or as what the items of arrays are. -/
def target? : Shape → Option String
  | .reference schema _ => some schema
  | .array item => item.target?
  | _ => none

/-- A type has a word in the place where a shape refers to a schema. The arrays around that are
written with a word of their own. -/
inductive Places (list word : String) : Shape → String → Prop
  | reference {schema : String} {object : Bool} : Places list word (.reference schema object) word
  | array {item : Shape} {type : String} (nullable : Bool) : Places list word item type →
      Places list word (.array item) (list ++ "<" ++ Model.nullableType type nullable ++ ">")

/-- Enums aside, renaming leaves a shape as it is. -/
theorem renameShape_of_target? {renames : NameMap String} {shape : Shape} {target : String}
    (refers : shape.target? = some target) : Model.renameShape renames shape = shape := by
  induction shape with
  | array item ih =>
    rw [Model.renameShape, ih refers]
  | enum constant => cases refers
  | _ => rfl

theorem target?_renameShape (renames : NameMap String) (shape : Shape) :
    (Model.renameShape renames shape).target? = shape.target? := by
  induction shape with
  | array item ih => exact ih
  | _ => rfl

namespace Places

variable {list word list' word' type type' : String} {shape : Shape}

theorem toList_array (list type : String) (nullable : Bool) :
    (list ++ "<" ++ Model.nullableType type nullable ++ ">").toList =
      list.toList ++ '<' :: (type.toList ++ (nullEnd nullable ++ ['>'])) := by
  simp only [String.toList_append, toList_nullableType, List.append_assoc]
  rfl

/-- No type with the word in its place shows that it accepts `null`. -/
theorem not_null_end (places : Places list word shape type)
    (letters : ∀ c ∈ word.toList, Code.isWordChar c) (front : List Char) :
    type.toList ≠ front ++ " | null".toList := by
  intro same
  cases places with
  | reference =>
    have bar : '|' ∈ word.toList := by
      rw [same]
      exact List.mem_append_right _ (by decide)
    exact absurd (letters '|' bar) (by decide)
  | @array _ type nullable inner =>
    have closes : (list ++ "<" ++ Model.nullableType type nullable ++ ">").toList =
        (list.toList ++ '<' :: (type.toList ++ nullEnd nullable)) ++ ['>'] := by
      rw [toList_array]
      simp
    have last := congrArg List.getLast? same
    rw [closes, List.getLast?_concat] at last
    simp at last

theorem eq_of_breaks {front front' rest rest' : List Char}
    (letters : ∀ c ∈ front, Code.isWordChar c) (letters' : ∀ c ∈ front', Code.isWordChar c)
    (same : front ++ '<' :: rest = front' ++ '<' :: rest') : rest = rest' := by
  have after := congrArg (List.dropWhile Code.isWordChar) same
  rw [List.dropWhile_append_of_pos letters, List.dropWhile_append_of_pos letters'] at after
  have stops : Code.isWordChar '<' = false := by decide
  rw [List.dropWhile_cons, List.dropWhile_cons, stops] at after
  exact (List.cons.inj after).2

/-- There is one word only in the place. -/
theorem word_eq (places : Places list word shape type) (places' : Places list' word' shape type')
    (same : type = type') (letters : ∀ c ∈ word.toList, Code.isWordChar c)
    (letters' : ∀ c ∈ word'.toList, Code.isWordChar c)
    (plain : ∀ c ∈ list.toList, Code.isWordChar c)
    (plain' : ∀ c ∈ list'.toList, Code.isWordChar c) : word = word' := by
  induction places generalizing type' with
  | reference =>
    cases places' with
    | reference => exact same
  | array nullable inner ih =>
    cases places' with
    | @array _ type' nullable' inner' =>
      have inside := congrArg String.toList same
      rw [toList_array, toList_array] at inside
      have inside := eq_of_breaks plain plain' inside
      rw [← List.append_assoc, ← List.append_assoc] at inside
      have inside := List.append_cancel_right inside
      cases nullable with
      | false =>
        cases nullable' with
        | false =>
          exact ih inner' (String.toList_injective (List.append_cancel_right inside))
        | true =>
          rw [nullEnd, if_neg Bool.false_ne_true, List.append_nil] at inside
          exact absurd inside (inner.not_null_end letters _)
      | true =>
        cases nullable' with
        | false =>
          rw [nullEnd, nullEnd, if_neg Bool.false_ne_true, List.append_nil] at inside
          exact absurd inside.symm (inner'.not_null_end letters' _)
        | true =>
          exact ih inner' (String.toList_injective (List.append_cancel_right inside))

theorem isNeat (places : Places list word shape type)
    (letters : ∀ c ∈ word.toList, Code.isWordChar c)
    (plain : ∀ c ∈ list.toList, Code.isWordChar c) : IsNeat type.toList := by
  induction places with
  | reference => exact Code.isNeat_of_isWordChar letters
  | array nullable inner ih =>
    have opening : IsNeat ['<'] := Code.isNeat_of_all rfl
    have closing : IsNeat ['>'] := Code.isNeat_of_all rfl
    rw [toList_array]
    exact (Code.isNeat_of_isWordChar plain).append
      (opening.append (ih.append ((Generation.isNeat_nullEnd nullable).append closing)))

/-- Renaming the identifiers of a type renames the word in its place, and that of arrays. -/
theorem rename {renames : NameMap String} (null : renames.get? "null" = none)
    (list_identifier : IsIdentifier list.toList) (identifier : IsIdentifier word.toList)
    (places : Places list word shape type) :
    Places (newName renames.get? list) (newName renames.get? word) shape
      (Code.rename renames.get? type) := by
  induction places with
  | reference =>
    have renamed : Code.rename renames.get? word = newName renames.get? word := by
      apply String.toList_injective
      rw [Code.toList_rename, Code.renameFrom_identifier identifier]
    rw [renamed]
    exact .reference
  | @array item type nullable inner ih =>
    have opening : renameFrom renames.get? .nothing ['<'] = ['<'] := Code.renameFrom_of_all rfl
    have closing : renameFrom renames.get? .nothing ['>'] = ['>'] := Code.renameFrom_of_all rfl
    have closed : Code.IsClosed ['<'] :=
      (Code.isClosed_of_all rfl rfl rfl : Code.IsClosed ([] ++ ['<']))
    have ending : Breaks (nullEnd nullable ++ ['>']) := by
      cases nullable with
      | false => exact ⟨'>', [], rfl, by decide⟩
      | true => exact ⟨' ', _, rfl, by decide⟩
    have renamed : Code.rename renames.get? (list ++ "<" ++ Model.nullableType type nullable ++ ">") =
        newName renames.get? list ++ "<" ++
          Model.nullableType (Code.rename renames.get? type) nullable ++ ">" := by
      apply String.toList_injective
      rw [Code.toList_rename, toList_array, toList_array,
        Code.renameFrom_append_of_breaks (Code.isNeat_of_isWordChar list_identifier.2)
          ⟨'<', _, rfl, by decide⟩,
        Code.renameFrom_identifier list_identifier, ← List.singleton_append,
        Code.renameFrom_append_of_closed closed, opening,
        Code.renameFrom_append_of_breaks (inner.isNeat identifier.2 list_identifier.2) ending,
        Code.renameFrom_append_of_breaks (Generation.isNeat_nullEnd nullable)
          ⟨'>', [], rfl, by decide⟩,
        Generation.renameFrom_nullEnd null, closing, ← Code.toList_rename, List.singleton_append]
    rw [renamed]
    exact .array nullable ih

end Places

end Shape

namespace Mapping

variable {scope : Scope}

/-- The type of a value has the name of the schema that it refers to in its place. -/
def Mapped.TypePlaced (value : Mapped) : Prop :=
  ∀ target, value.shape.target? = some target →
    value.shape.Places "Array" (Naming.typeName target) value.type.text

theorem typePlaced_mapString {facets : Schema.StringFacets} {hint : String} {before after : State}
    {value : Mapped} (run : Yields (mapString scope facets hint) before value after) :
    value.TypePlaced := by
  rcases yields_mapString run with ⟨-, -, rfl⟩ | ⟨literal, -, -, rfl⟩ | ⟨-, -, rfl⟩
  · exact fun _ => nofun
  · exact fun _ => nofun
  · exact fun _ => nofun

theorem typePlaced_arrayOf {item : Mapped} (placed : item.TypePlaced) :
    (arrayOf item).TypePlaced := by
  intro target refers
  have inner := Shape.Places.array item.nullable (placed target refers)
  have shown : (TypeExpr.nullable item.nullable item.type).text =
      Model.nullableType item.type.text item.nullable := by
    cases item.nullable <;> rfl
  rw [← shown] at inner
  exact inner

theorem typePlaced_unionOf {discriminator : Option String} {values : List Mapped}
    (all : ∀ value ∈ values, value.TypePlaced) :
    (unionOf scope discriminator values).TypePlaced := by
  rcases values with _ | ⟨first, _ | ⟨second, rest⟩⟩
  · exact fun _ => nofun
  · exact all first List.mem_cons_self
  · exact fun _ => nofun

theorem typePlaced_rules : Rules scope (fun _ _ _ _ value _ => value.TypePlaced)
    (fun _ _ _ _ _ _ values _ => ∀ value ∈ values, value.TypePlaced) where
  string run := by
    have placed := typePlaced_mapString run
    exact placed
  number := fun _ => nofun
  boolean := fun _ => nofun
  null := fun _ => nofun
  emptyObject := fun _ => nofun
  dictionary _ _ _ := fun _ => nofun
  literalObject _ := fun _ => nofun
  record _ _ := fun _ => nofun
  untypedArray := fun _ => nofun
  array _ ih := typePlaced_arrayOf ih
  oneOf _ ih := typePlaced_unionOf ih
  ref _ := by
    rintro target ⟨⟩
    exact .reference
  done := fun value member => absurd member List.not_mem_nil
  skip _ ih := ih
  next _ _ first rest := List.forall_mem_cons.2 ⟨first, rest⟩

theorem typePlaced_mapValue {schema : Schema} {hint path : String} {before after : State}
    {value : Mapped} (run : Yields (mapValue scope schema hint path) before value after) :
    value.TypePlaced :=
  typePlaced_rules.hold schema run

end Mapping

end ZodModules
