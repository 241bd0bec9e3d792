import ZodModules.Generation.Generator
import ZodModules.Model.Symbols
import ZodModules.Proofs.Naming.Keys
import ZodModules.Proofs.Text.Joined

/-!
# Renaming the types of objects

The type of an object has a line for each property. Renaming it renames the type in each line, and
the name of a property that has a new name of its own if it stands without quotes.
-/

namespace ZodModules

open Code (IsNeat IsClosed Breaks renameFrom Lengthens)

namespace Generation

variable {renames : NameMap String} {indent : Indent}

/-- What stands between the name of a property and its type. -/
def typeMark (property : Model.Property) : List Char :=
  if property.required then ": ".toList else "?: ".toList

/-- What stands after the type of a property. -/
def typeEnd (property : Model.Property) : List Char :=
  if property.nullable then " | null;".toList else ";".toList

/-- The line of a property in the type of an object, with some characters as its key. -/
def typeLine (indent : Indent) (property : Model.Property) (key : List Char) : List Char :=
  indent.text.toList ++ (key ++ (typeMark property ++ (property.type.toList ++ typeEnd property)))

theorem toList_objectType (indent : Indent) {properties : List Model.Property}
    (nonempty : properties ≠ []) :
    (objectType indent.text properties).toList =
      "\x7b\n".toList ++
        ("\n".toList.intercalate (properties.map fun property =>
          typeLine indent property (Naming.propertyKey property.name).toList) ++
        "\n\x7d".toList) := by
  have filled : ¬ properties.isEmpty := by
    rw [List.isEmpty_iff]
    exact nonempty
  unfold objectType
  rw [if_neg filled, String.toList_append, String.toList_append, String.toList_intercalate,
    List.append_assoc, List.map_map]
  have line (property : Model.Property) :
      (indent.text ++ Naming.propertyKey property.name ++ (if property.required then "" else "?") ++
        ": " ++ Model.nullableType property.type property.nullable ++ ";").toList =
        typeLine indent property (Naming.propertyKey property.name).toList := by
    unfold typeLine typeMark typeEnd Model.nullableType
    cases property.required <;> cases property.nullable <;> simp
  simp only [Function.comp_def, line]

theorem isClosed_indent (indent : Indent) : IsClosed indent.text.toList := by
  cases indent with
  | spaces2 => exact (Code.isClosed_of_all rfl rfl rfl : IsClosed ([' '] ++ [' ']))
  | spaces4 => exact (Code.isClosed_of_all rfl rfl rfl : IsClosed ([' ', ' ', ' '] ++ [' ']))
  | tab => exact (Code.isClosed_of_all rfl rfl rfl : IsClosed ([] ++ ['\t']))

theorem renameFrom_indent (indent : Indent) :
    renameFrom renames.get? .nothing indent.text.toList = indent.text.toList := by
  cases indent with
  | spaces2 => exact Code.renameFrom_of_all rfl
  | spaces4 => exact Code.renameFrom_of_all rfl
  | tab => exact Code.renameFrom_of_all rfl

theorem isClosed_typeMark (property : Model.Property) : IsClosed (typeMark property) := by
  unfold typeMark
  split
  · exact (Code.isClosed_of_all rfl rfl rfl : IsClosed ([':'] ++ [' ']))
  · exact (Code.isClosed_of_all rfl rfl rfl : IsClosed (['?', ':'] ++ [' ']))

theorem renameFrom_typeMark (property : Model.Property) :
    renameFrom renames.get? .nothing (typeMark property) = typeMark property := by
  unfold typeMark
  split
  · exact Code.renameFrom_of_all rfl
  · exact Code.renameFrom_of_all rfl

theorem breaks_typeMark (property : Model.Property) (rest : List Char) :
    Breaks (typeMark property ++ rest) := by
  unfold typeMark
  split
  · exact ⟨':', _, rfl, by decide⟩
  · exact ⟨'?', _, rfl, by decide⟩

/-- The alternative of `null` after a type. -/
def nullEnd (nullable : Bool) : List Char := if nullable then " | null".toList else []

theorem toList_nullableType (type : String) (nullable : Bool) :
    (Model.nullableType type nullable).toList = type.toList ++ nullEnd nullable := by
  unfold Model.nullableType nullEnd
  cases nullable with
  | false => exact (List.append_nil _).symm
  | true => exact String.toList_append

theorem isNeat_nullEnd (nullable : Bool) : IsNeat (nullEnd nullable) := by
  cases nullable with
  | false => exact Code.isNeat_of_all rfl
  | true => exact (Code.isNeat_of_all rfl : IsNeat " | null".toList)

theorem renameFrom_nullEnd (null : renames.get? "null" = none) (nullable : Bool) :
    renameFrom renames.get? .nothing (nullEnd nullable) = nullEnd nullable := by
  cases nullable with
  | false => rfl
  | true =>
    have pieces : Code.piecesFrom .nothing " | null".toList =
        [.other ' ', .other '|', .other ' ', .word "null".toList] := by decide
    have word : (Code.Piece.word "null".toList).rename renames.get? = "null".toList := by
      rw [Code.Piece.rename, String.ofList_toList, null]
      rfl
    show renameFrom renames.get? .nothing " | null".toList = " | null".toList
    rw [renameFrom, pieces]
    simp only [List.flatMap_cons, List.flatMap_nil, word]
    rfl

theorem typeEnd_eq (property : Model.Property) :
    typeEnd property = nullEnd property.nullable ++ [';'] := by
  unfold typeEnd nullEnd
  split
  · rfl
  · rfl

theorem isClosed_typeEnd (property : Model.Property) : IsClosed (typeEnd property) := by
  have last : IsClosed [';'] := (Code.isClosed_of_all rfl rfl rfl : IsClosed ([] ++ [';']))
  rw [typeEnd_eq]
  exact (isNeat_nullEnd _).append_closed last

theorem breaks_typeEnd (property : Model.Property) : Breaks (typeEnd property) := by
  unfold typeEnd
  split
  · exact ⟨' ', _, rfl, by decide⟩
  · exact ⟨';', _, rfl, by decide⟩

theorem renameFrom_typeEnd (null : renames.get? "null" = none) (property : Model.Property) :
    renameFrom renames.get? .nothing (typeEnd property) = typeEnd property := by
  have last : renameFrom renames.get? .nothing [';'] = [';'] := Code.renameFrom_of_all rfl
  rw [typeEnd_eq, Code.renameFrom_append_of_breaks (isNeat_nullEnd _) ⟨';', [], rfl, by decide⟩,
    renameFrom_nullEnd null, last]

/-- Renaming the line of a property renames its type and its key. -/
theorem renameFrom_typeLine (null : renames.get? "null" = none) {property : Model.Property}
    (neat : IsNeat property.type.toList) {key : List Char} (neat' : IsNeat key) :
    renameFrom renames.get? .nothing (typeLine indent property key) =
      typeLine indent (property.rename renames) (renameFrom renames.get? .nothing key) := by
  unfold typeLine
  rw [Code.renameFrom_append_of_closed (isClosed_indent indent), renameFrom_indent,
    Code.renameFrom_append_of_breaks neat' (breaks_typeMark property _),
    Code.renameFrom_append_of_closed (isClosed_typeMark property), renameFrom_typeMark,
    Code.renameFrom_append_of_breaks neat (breaks_typeEnd property), renameFrom_typeEnd null,
    ← Code.toList_rename]
  rfl

theorem isClosed_typeLine {property : Model.Property} (neat : IsNeat property.type.toList)
    {key : List Char} (neat' : IsNeat key) : IsClosed (typeLine indent property key) :=
  (isClosed_indent indent).isNeat.append_closed (neat'.append_closed
    ((isClosed_typeMark property).isNeat.append_closed
      (neat.append_closed (isClosed_typeEnd property))))

theorem isClosed_empty : IsClosed "{}".toList :=
  (Code.isClosed_of_all rfl rfl rfl : IsClosed (['{'] ++ ['}']))

theorem isClosed_opening : IsClosed "\x7b\n".toList :=
  (Code.isClosed_of_all rfl rfl rfl : IsClosed (['{'] ++ ['\n']))

theorem isClosed_newline : IsClosed "\n".toList :=
  (Code.isClosed_of_all rfl rfl rfl : IsClosed ([] ++ ['\n']))

theorem isClosed_closing : IsClosed "\n\x7d".toList :=
  (Code.isClosed_of_all rfl rfl rfl : IsClosed (['\n'] ++ ['}']))

section Object

variable {properties : List Model.Property}
  (neat : ∀ property ∈ properties, IsNeat property.type.toList)

include neat

theorem isClosed_typeLines (indent : Indent) :
    ∀ text ∈ properties.map fun property =>
      typeLine indent property (Naming.propertyKey property.name).toList, IsClosed text := by
  intro text member
  obtain ⟨property, inside, rfl⟩ := List.mem_map.1 member
  exact isClosed_typeLine (neat property inside) (Naming.isNeat_propertyKey property.name)

theorem isClosed_objectType : IsClosed (objectType indent.text properties).toList := by
  by_cases empty : properties = []
  · rw [empty]
    exact isClosed_empty
  · rw [toList_objectType indent empty]
    exact isClosed_opening.isNeat.append_closed
      ((Code.isClosed_intercalate isClosed_newline (isClosed_typeLines neat indent)
        (by simpa using empty)).isNeat.append_closed isClosed_closing)

/-- Renaming the type of an object renames its lines. -/
theorem renameFrom_objectType (null : renames.get? "null" = none) (nonempty : properties ≠ []) :
    renameFrom renames.get? .nothing (objectType indent.text properties).toList =
      "\x7b\n".toList ++
        ("\n".toList.intercalate (properties.map fun property =>
          typeLine indent (property.rename renames)
            (renameFrom renames.get? .nothing (Naming.propertyKey property.name).toList)) ++
        "\n\x7d".toList) := by
  have kept_opening : renameFrom renames.get? .nothing "\x7b\n".toList = "\x7b\n".toList :=
    Code.renameFrom_of_all rfl
  have kept_newline : renameFrom renames.get? .nothing "\n".toList = "\n".toList :=
    Code.renameFrom_of_all rfl
  have kept_closing : renameFrom renames.get? .nothing "\n\x7d".toList = "\n\x7d".toList :=
    Code.renameFrom_of_all rfl
  have lines_closed := isClosed_typeLines neat indent
  have inner := Code.isClosed_intercalate isClosed_newline lines_closed (by simpa using nonempty)
  rw [toList_objectType indent nonempty, Code.renameFrom_append_of_closed isClosed_opening,
    Code.renameFrom_append_of_closed inner, kept_opening, kept_closing,
    Code.renameFrom_intercalate isClosed_newline kept_newline lines_closed, List.map_map]
  have lines : properties.map (renameFrom renames.get? .nothing ∘ fun property =>
      typeLine indent property (Naming.propertyKey property.name).toList) =
      properties.map fun property =>
        typeLine indent (property.rename renames)
          (renameFrom renames.get? .nothing (Naming.propertyKey property.name).toList) := by
    refine List.map_congr_left fun property member => ?_
    exact renameFrom_typeLine null (neat property member) (Naming.isNeat_propertyKey property.name)
  rw [lines]

/-- The type of an object with renamed properties is its type renamed exactly if no key without
quotes has a new name. -/
theorem rename_objectType_iff (indent : Indent) (lengthens : Lengthens renames.get?)
    (null : renames.get? "null" = none) (nullable : Bool) :
    Code.rename renames.get? (Model.nullableType (objectType indent.text properties) nullable) =
        Model.nullableType
          (objectType indent.text (properties.map (Model.Property.rename renames))) nullable ↔
      ∀ property ∈ properties,
        Naming.isIdentifier property.name → renames.get? property.name = none := by
  rw [← String.toList_inj, Code.toList_rename, toList_nullableType, toList_nullableType,
    Code.renameFrom_append_of_closed (isClosed_objectType neat), renameFrom_nullEnd null,
    List.append_cancel_right_eq]
  by_cases empty : properties = []
  · subst empty
    have kept : renameFrom renames.get? .nothing "{}".toList = "{}".toList :=
      Code.renameFrom_of_all rfl
    exact ⟨fun _ _ member => absurd member List.not_mem_nil, fun _ => kept⟩
  · have nonempty : properties.map (Model.Property.rename renames) ≠ [] := by
      rw [Ne, List.map_eq_nil_iff]
      exact empty
    rw [renameFrom_objectType neat null empty, toList_objectType indent nonempty, List.map_map,
      List.append_cancel_left_eq, List.append_cancel_right_eq]
    let kept (property : Model.Property) : List Char :=
      typeLine indent (property.rename renames) (Naming.propertyKey property.name).toList
    have line_iff (property : Model.Property) :
        typeLine indent (property.rename renames)
            (renameFrom renames.get? .nothing (Naming.propertyKey property.name).toList) =
          kept property ↔
        (Naming.isIdentifier property.name → renames.get? property.name = none) := by
      rw [← Naming.renameFrom_propertyKey_eq_iff lengthens]
      unfold kept typeLine
      rw [List.append_cancel_left_eq, List.append_cancel_right_eq]
    have le : ∀ property ∈ properties, (kept property).length ≤
        (typeLine indent (property.rename renames)
          (renameFrom renames.get? .nothing (Naming.propertyKey property.name).toList)).length := by
      intro property _
      have key := Naming.length_propertyKey_le lengthens property.name
      simp only [kept, typeLine, List.length_append]
      omega
    constructor
    · intro same property member
      exact (line_iff property).1 (Code.eq_of_intercalate_eq le same property member)
    · intro all
      refine congrArg _ (List.map_congr_left fun property member => ?_)
      exact (line_iff property).2 (all property member)

end Object

end Generation

end ZodModules
