import ZodModules.Proofs.Expr.MappedParts
import ZodModules.Proofs.Model.Numbering

/-!
# Paths of diagnostics

Where the segments of a path lead from a schema. They hold the numbers of the branches of unions,
which can be counted among all branches or among those that are not just `null`.
-/

namespace ZodModules.Schema

open Mapping (isDictionary isNull childPath element?)

variable {number other : List Schema → Nat → Nat}

/-- The number of a branch by its place among all branches. -/
def declaredNumber (_ : List Schema) (index : Nat) : Nat := index

/-- The number of a branch by its place among the branches that are not just `null`. -/
def valueNumber (branches : List Schema) (index : Nat) : Nat :=
  (branches.take index).countP (!isNull ·)

/-- Segments lead from a schema to a part of it, past the parts at a position. A union of which only
one branch is not just `null` is passed without a segment. -/
inductive Leads (number : List Schema → Nat → Nat) :
    Schema → List String → List Nat → Schema → Prop where
  | here {schema} : Leads number schema [] [] schema
  | property {properties required metadata index property segments position target}
    (found : properties[index]? = some property)
    (inner : Leads number property.schema segments position target) :
    Leads number ⟨.object properties required, metadata⟩ (property.name :: segments)
      (index :: position) target
  | value {value metadata segments position target}
    (inner : Leads number value segments position target) :
    Leads number ⟨.record value, metadata⟩ ("additionalProperties" :: segments) (0 :: position)
      target
  | items {items metadata segments position target}
    (inner : Leads number items segments position target) :
    Leads number ⟨.array (some items), metadata⟩ ("items" :: segments) (0 :: position) target
  | branch {branches discriminator metadata index branch segments position target}
    (several : branches.countP (!isNull ·) ≠ 1) (found : branches[index]? = some branch)
    (notNull : ¬ isNull branch) (inner : Leads number branch segments position target) :
    Leads number ⟨.oneOf branches discriminator, metadata⟩
      (("oneOf[" ++ toString (number branches index) ++ "]") :: segments) (index :: position) target
  | only {branches discriminator metadata index branch segments position target}
    (single : branches.countP (!isNull ·) = 1) (found : branches[index]? = some branch)
    (notNull : ¬ isNull branch) (inner : Leads number branch segments position target) :
    Leads number ⟨.oneOf branches discriminator, metadata⟩ segments (index :: position) target

/-- How many branches that are just `null` stand before those at a position, in the unions that are
not passed without a segment. -/
def nullsBefore : Schema → List Nat → Nat
  | _, [] => 0
  | ⟨.object properties _, _⟩, index :: position =>
    properties[index]?.elim 0 fun property => nullsBefore property.schema position
  | ⟨.record value, _⟩, _ :: position => nullsBefore value position
  | ⟨.array (some items), _⟩, _ :: position => nullsBefore items position
  | ⟨.oneOf branches _, _⟩, index :: position =>
    (if branches.countP (!isNull ·) = 1 then 0 else (branches.take index).countP isNull) +
      branches[index]?.elim 0 fun branch => nullsBefore branch position
  | _, _ :: _ => 0

/-- However branches are numbered, a position takes the same number of segments. -/
theorem Leads.length_eq {schema target target' : Schema} {segments segments' : List String}
    {position : List Nat} (walk : Leads number schema segments position target)
    (walk' : Leads other schema segments' position target') :
    segments.length = segments'.length := by
  induction walk generalizing segments' with
  | here =>
    cases walk'
    rfl
  | property found _ ih =>
    cases walk' with
    | property found' inner =>
      obtain rfl := Option.some.inj (found.symm.trans found')
      exact congrArg Nat.succ (ih inner)
  | value _ ih =>
    cases walk' with
    | value inner => exact congrArg Nat.succ (ih inner)
  | items _ ih =>
    cases walk' with
    | items inner => exact congrArg Nat.succ (ih inner)
  | branch several found _ _ ih =>
    cases walk' with
    | branch _ found' _ inner =>
      obtain rfl := Option.some.inj (found.symm.trans found')
      exact congrArg Nat.succ (ih inner)
    | only single => exact absurd single several
  | only single found _ _ ih =>
    cases walk' with
    | branch several => exact absurd single several
    | only _ found' _ inner =>
      obtain rfl := Option.some.inj (found.symm.trans found')
      exact ih inner

/-- The two numbers of a branch differ by the branches before it that are just `null`. -/
theorem valueNumber_eq_iff {branches : List Schema} {index : Nat} {branch : Schema}
    (found : branches[index]? = some branch) :
    valueNumber branches index = declaredNumber branches index ↔
      (branches.take index).countP isNull = 0 := by
  obtain ⟨inside, -⟩ := List.getElem?_eq_some_iff.1 found
  have all := List.length_eq_countP_add_countP isNull (l := branches.take index)
  simp only [List.length_take, Nat.min_eq_left (Nat.le_of_lt inside), Bool.not_eq_true,
    Bool.decide_eq_false] at all
  unfold valueNumber declaredNumber
  omega

theorem segment_injective {first second : Nat}
    (same : "oneOf[" ++ toString first ++ "]" = "oneOf[" ++ toString second ++ "]") :
    first = second := by
  apply Model.toString_injective
  rwa [String.append_left_inj, String.append_right_inj] at same

/-- Segments that number the branches among those that are not just `null` lead to the same position
as declared exactly if no other branches stand before them. -/
theorem Leads.declared_iff {schema target : Schema} {segments : List String} {position : List Nat}
    (walk : Leads valueNumber schema segments position target) :
    Leads declaredNumber schema segments position target ↔ nullsBefore schema position = 0 := by
  induction walk with
  | here => exact iff_of_true .here rfl
  | @property _ _ _ _ property segments _ _ found _ ih =>
    rw [nullsBefore, found, Option.elim_some, ← ih]
    constructor
    · intro walk
      generalize same : property.name :: segments = all at walk
      cases walk with
      | property found' inner =>
        obtain rfl := Option.some.inj (found.symm.trans found')
        cases same
        exact inner
    · exact .property found
  | value _ ih =>
    rw [nullsBefore, ← ih]
    constructor
    · rintro ⟨⟩
      assumption
    · exact .value
  | items _ ih =>
    rw [nullsBefore, ← ih]
    constructor
    · rintro ⟨⟩
      assumption
    · exact .items
  | @branch branches _ _ index _ segments _ _ several found notNull _ ih =>
    rw [nullsBefore, if_neg several, found, Option.elim_some, Nat.add_eq_zero_iff, ← ih,
      ← valueNumber_eq_iff found]
    constructor
    · -- The segment gives the number back, so the two numbers of the branch are the same.
      intro walk
      generalize same :
        ("oneOf[" ++ toString (valueNumber branches index) ++ "]") :: segments = all at walk
      cases walk with
      | branch _ found' _ inner =>
        obtain rfl := Option.some.inj (found.symm.trans found')
        obtain ⟨first, rfl⟩ := List.cons.inj same
        exact ⟨segment_injective first, inner⟩
      | only single => exact absurd single several
    · rintro ⟨same, inner⟩
      rw [same]
      exact .branch several found notNull inner
  | only single found notNull _ ih =>
    rw [nullsBefore, if_pos single, found, Option.elim_some, Nat.zero_add, ← ih]
    constructor
    · intro walk
      cases walk with
      | branch several => exact absurd single several
      | only _ found' _ inner =>
        obtain rfl := Option.some.inj (found.symm.trans found')
        exact inner
    · exact .only single found notNull

section Parts

/-- A part of some properties is one of the value of one of them. -/
theorem exists_of_mem_propertyParts {properties : List (Property Schema)} {start : Nat}
    {part : Part} (member : part ∈ propertyParts start properties) :
    ∃ index, ∃ property : Property Schema, properties[index]? = some property ∧
      ∃ inner ∈ property.schema.mappedParts, inner.within (start + index) [property.name] = part := by
  induction properties generalizing start with
  | nil => cases member
  | cons property rest ih =>
    rw [propertyParts] at member
    rcases List.mem_append.1 member with first | later
    · obtain ⟨inner, inside, rfl⟩ := List.mem_map.1 first
      exact ⟨0, property, rfl, inner, inside, rfl⟩
    · obtain ⟨index, found, present, inner, inside, rfl⟩ := ih later
      refine ⟨index + 1, found, present, inner, inside, ?_⟩
      rw [Nat.add_right_comm, Nat.add_assoc]

theorem valueNumber_null {branch : Schema} {branches : List Schema} {index : Nat}
    (null : isNull branch) :
    valueNumber (branch :: branches) (index + 1) = valueNumber branches index := by
  rw [valueNumber, List.take_succ_cons, List.countP_cons_of_neg (by simpa using null), valueNumber]

theorem valueNumber_cons {branch : Schema} {branches : List Schema} {index : Nat}
    (notNull : ¬ isNull branch) :
    valueNumber (branch :: branches) (index + 1) = valueNumber branches index + 1 := by
  rw [valueNumber, List.take_succ_cons, List.countP_cons_of_pos (by simpa using notNull),
    valueNumber]

/-- A part of some branches is one of one of them. -/
theorem exists_of_mem_branchParts {branches : List Schema} {count start first : Nat} {part : Part}
    (member : part ∈ branchParts count start first branches) :
    ∃ index branch, branches[index]? = some branch ∧ ¬ isNull branch ∧
      ∃ inner ∈ branch.mappedParts,
        inner.within (start + index)
          (branchSegments count (first + valueNumber branches index)) = part := by
  induction branches generalizing start first with
  | nil =>
    rw [branchParts] at member
    cases member
  | cons branch rest ih =>
    by_cases null : isNull branch
    · rw [branchParts_null null] at member
      obtain ⟨index, found, present, notNull, inner, inside, rfl⟩ := ih member
      refine ⟨index + 1, found, present, notNull, inner, inside, ?_⟩
      rw [Nat.add_right_comm, Nat.add_assoc, valueNumber_null null]
    · rw [branchParts_cons null] at member
      rcases List.mem_append.1 member with here | later
      · obtain ⟨inner, inside, rfl⟩ := List.mem_map.1 here
        exact ⟨0, branch, rfl, null, inner, inside, rfl⟩
      · obtain ⟨index, found, present, notNull, inner, inside, rfl⟩ := ih later
        refine ⟨index + 1, found, present, notNull, inner, inside, ?_⟩
        rw [Nat.add_right_comm, Nat.add_assoc, valueNumber_cons null, Nat.add_right_comm,
          Nat.add_assoc]

/-- What is to be shown, one rule for each kind of schema that is mapped by its parts, to establish
something of all parts that are mapped. -/
structure PartRules (P : Schema → Part → Prop) : Prop where
  whole : ∀ schema, P schema (.whole schema)
  dictionary : ∀ {name first rest required metadata part}, isDictionary ⟨name, first⟩ rest →
    part ∈ first.mappedParts → P first part →
    P ⟨.object (⟨name, first⟩ :: rest) required, metadata⟩ (part.within 0 [name])
  record : ∀ {value metadata part}, P value part →
    P ⟨.record value, metadata⟩ (part.within 0 ["additionalProperties"])
  array : ∀ {items metadata part}, P items part →
    P ⟨.array (some items), metadata⟩ (part.within 0 ["items"])
  oneOf : ∀ {branches discriminator metadata index branch part}, branches[index]? = some branch →
    ¬ isNull branch → P branch part →
    P ⟨.oneOf branches discriminator, metadata⟩
      (part.within index
        (branchSegments (branches.countP (!isNull ·)) (valueNumber branches index)))

namespace PartRules

variable {P : Schema → Part → Prop}

mutual

/-- What the rules establish holds of all parts that are mapped. -/
theorem hold (rules : PartRules P) : ∀ (schema : Schema) {part : Part}, part ∈ schema.mappedParts → P schema part
  | ⟨.object (⟨name, first⟩ :: rest) required, metadata⟩, part, member => by
    by_cases uniform : isDictionary ⟨name, first⟩ rest
    · rw [mappedParts_dictionary uniform] at member
      rcases List.mem_cons.1 member with rfl | member
      · exact rules.whole _
      · obtain ⟨inner, inside, rfl⟩ := List.mem_map.1 member
        exact rules.dictionary uniform inside (rules.hold first inside)
    · rw [mappedParts_literalObject uniform] at member
      obtain rfl := List.mem_singleton.1 member
      exact rules.whole _
  | ⟨.record value, metadata⟩, part, member => by
    rw [mappedParts_record] at member
    rcases List.mem_cons.1 member with rfl | member
    · exact rules.whole _
    · obtain ⟨inner, inside, rfl⟩ := List.mem_map.1 member
      exact rules.record (rules.hold value inside)
  | ⟨.array (some items), metadata⟩, part, member => by
    rw [mappedParts_array] at member
    rcases List.mem_cons.1 member with rfl | member
    · exact rules.whole _
    · obtain ⟨inner, inside, rfl⟩ := List.mem_map.1 member
      exact rules.array (rules.hold items inside)
  | ⟨.oneOf branches _, metadata⟩, part, member => by
    rw [mappedParts_oneOf] at member
    rcases List.mem_cons.1 member with rfl | member
    · exact rules.whole _
    · obtain ⟨index, branch, found, notNull, inner, inside, rfl⟩ := exists_of_mem_branchParts member
      rw [Nat.zero_add, Nat.zero_add]
      exact rules.oneOf found notNull
        (rules.hold_branches branches (List.mem_of_getElem? found) inside)
  | ⟨.object [] _, _⟩, part, member | ⟨.string _, _⟩, part, member
  | ⟨.number _, _⟩, part, member | ⟨.boolean, _⟩, part, member | ⟨.null, _⟩, part, member
  | ⟨.array none, _⟩, part, member | ⟨.ref _, _⟩, part, member => by
    rw [mappedParts, innerParts] at member
    obtain rfl := List.mem_singleton.1 member
    exact rules.whole _

/-- The same for the branches of a union. -/
theorem hold_branches (rules : PartRules P) : ∀ (branches : List Schema) {branch : Schema},
    branch ∈ branches → ∀ {part : Part}, part ∈ branch.mappedParts → P branch part
  | first :: rest, branch, present, part, member => by
    rcases List.mem_cons.1 present with same | later
    · rw [same] at member ⊢
      exact rules.hold first member
    · exact rules.hold_branches rest later member

end

end PartRules

/-- The segments of each part lead to it. -/
theorem leads_rules : PartRules fun schema part =>
    Leads valueNumber schema part.segments part.position part.schema where
  whole _ := .here
  dictionary := by
    intro name first rest required metadata part _ _ inner
    exact @Leads.property _ _ _ _ 0 ⟨name, first⟩ _ _ _ rfl inner
  record inner := .value inner
  array inner := .items inner
  oneOf := by
    intro branches discriminator metadata index branch part found notNull inner
    by_cases single : branches.countP (!isNull ·) = 1
    · rw [branchSegments, if_pos single]
      exact .only single found notNull inner
    · rw [branchSegments, if_neg single]
      exact .branch single found notNull inner

/-- Nothing but references is reported of the elements of a dictionary. -/
theorem degradation?_of_element {schema : Schema} (designates : (element? schema).isSome)
    {part : Part} (member : part ∈ schema.mappedParts) : part.schema.degradation? = none := by
  obtain ⟨kind, metadata⟩ := schema
  cases kind with
  | ref target =>
    rw [mappedParts, innerParts] at member
    obtain rfl := List.mem_singleton.1 member
    rfl
  | array items =>
    obtain _ | ⟨kind, inner⟩ := items
    · cases designates
    · cases kind with
      | ref target =>
        rw [mappedParts_array, mappedParts, innerParts] at member
        simp only [List.map_cons, List.map_nil, List.mem_cons, List.not_mem_nil, or_false] at member
        rcases member with rfl | rfl <;> rfl
      | _ => cases designates
  | _ => cases designates

theorem not_mem_toDigits (number : Nat) : '.' ∉ Nat.toDigits 10 number := by
  intro member
  exact absurd (Nat.isDigit_of_mem_toDigits (by decide) (by decide) member) (by decide)

/-- The segments of a part of which a shape is reported have no points. -/
theorem plain_rules : PartRules fun _ part =>
    part.schema.degradation?.isSome → ∀ segment ∈ part.segments, '.' ∉ segment.toList where
  whole _ _ segment member := absurd member List.not_mem_nil
  dictionary := by
    intro name first rest required metadata part uniform member _ degraded
    rw [isDictionary, Bool.and_eq_true] at uniform
    rw [Part.schema_within, degradation?_of_element uniform.1 member] at degraded
    cases degraded
  record plain degraded := List.forall_mem_cons.2 ⟨by decide, plain degraded⟩
  array plain degraded := List.forall_mem_cons.2 ⟨by decide, plain degraded⟩
  oneOf := by
    intro branches discriminator metadata index branch part found notNull plain degraded
    rw [Part.within, branchSegments]
    split
    · exact plain degraded
    · refine List.forall_mem_cons.2 ⟨?_, plain degraded⟩
      simp [not_mem_toDigits]

end Parts

section Segments

/-- The segments of a path: what stands between its points. -/
def pathSegments (path : String) : List String :=
  if path.isEmpty then [] else (path.toList.splitOn '.').map String.ofList

theorem foldl_childPath {path : String} (nonempty : path ≠ "") (segments : List String) :
    segments.foldl childPath path = ".".intercalate (path :: segments) := by
  induction segments generalizing path with
  | nil => exact String.intercalate_singleton.symm
  | cons segment rest ih =>
    have longer : childPath path segment = path ++ "." ++ segment := by
      rw [childPath, if_neg (by simpa using nonempty)]
    rw [List.foldl_cons, longer, ih (by simp), String.intercalate_cons_cons]
    cases rest with
    | nil => simp [String.intercalate_singleton]
    | cons next rest => simp [String.intercalate_cons_cons, String.append_assoc]

/-- A path has the segments that it is made of but for empty ones at the start. -/
theorem pathSegments_foldl {segments : List String}
    (plain : ∀ segment ∈ segments, '.' ∉ segment.toList) :
    pathSegments (segments.foldl childPath "") = segments.dropWhile String.isEmpty := by
  induction segments with
  | nil => rfl
  | cons segment rest ih =>
    rw [List.foldl_cons]
    show pathSegments (rest.foldl childPath segment) = _
    by_cases empty : segment = ""
    · rw [empty, List.dropWhile_cons_of_pos rfl]
      exact ih (List.forall_mem_cons.1 plain).2
    · have filled : ¬ (".".intercalate (segment :: rest)).isEmpty := by
        cases rest <;> simp [String.intercalate_cons_cons, String.intercalate_singleton, empty]
      rw [List.dropWhile_cons_of_neg (by simpa using empty), foldl_childPath empty, pathSegments,
        if_neg filled, String.toList_intercalate]
      show (List.splitOn '.' (['.'].intercalate _)).map _ = _
      rw [List.splitOn_intercalate '.' _ (by simp), List.map_map]
      · exact (List.map_congr_left fun _ _ => String.ofList_toList).trans (List.map_id _)
      · intro letters member
        obtain ⟨segment, inside, rfl⟩ := List.mem_map.1 member
        exact plain segment inside

theorem length_dropWhile_isEmpty_iff {segments : List String} :
    (segments.dropWhile String.isEmpty).length = segments.length ↔ segments.head? ≠ some "" := by
  cases segments with
  | nil => simp
  | cons segment rest =>
    by_cases empty : segment = ""
    · have shorter := (List.dropWhile_suffix String.isEmpty (l := rest)).length_le
      rw [empty, List.dropWhile_cons_of_pos rfl]
      simp only [List.length_cons, List.head?_cons, ne_eq, not_true, iff_false]
      omega
    · rw [List.dropWhile_cons_of_neg (by simpa using empty)]
      simp [empty]

/-- The path of a part leads to it if its segments do and none of them is lost at the start. -/
theorem leads_pathFrom_iff {schema : Schema} {part : Part}
    (walk : Leads other schema part.segments part.position part.schema)
    (plain : ∀ segment ∈ part.segments, '.' ∉ segment.toList) :
    Leads number schema (pathSegments (part.pathFrom "")) part.position part.schema ↔
      Leads number schema part.segments part.position part.schema ∧
        part.segments.head? ≠ some "" := by
  rw [Part.pathFrom, pathSegments_foldl plain, ← length_dropWhile_isEmpty_iff]
  have suffix := List.dropWhile_suffix String.isEmpty (l := part.segments)
  constructor
  · -- Both walks take as many segments, so the path has lost none.
    intro walk'
    have length := walk'.length_eq walk
    rw [suffix.eq_of_length length] at walk'
    exact ⟨walk', length⟩
  · rintro ⟨walk', length⟩
    rw [suffix.eq_of_length length]
    exact walk'

end Segments

end ZodModules.Schema
