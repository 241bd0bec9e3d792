import ZodModules.OpenApi.Usage

/-!
# References in values

What it is for a value to contain a reference, said without listing its references, and that every
reference in any part of a document is one of the strings of that document.
-/

namespace ZodModules.OpenApi

/-- A value contains a reference: one of its objects has it under `$ref`, and stands itself under no
`$ref`. -/
inductive Mentions (reference : String) : Json → Prop where
  | ref {members : List (String × Json)} (declared : ("$ref", .string reference) ∈ members) :
      Mentions reference (.object members)
  | member {members : List (String × Json)} {key : String} {value : Json}
      (declared : (key, value) ∈ members) (other : key ≠ "$ref")
      (inside : Mentions reference value) : Mentions reference (.object members)
  | item {items : List Json} {value : Json} (listed : value ∈ items)
      (inside : Mentions reference value) : Mentions reference (.array items)

theorem mem_memberReferences {reference : String} {members : List (String × Json)} :
    reference ∈ memberReferences members ↔
      ("$ref", .string reference) ∈ members ∨
        ∃ member ∈ members, member.1 ≠ "$ref" ∧ reference ∈ references member.2 := by
  induction members with
  | nil => simp [memberReferences]
  | cons member rest ih =>
    obtain ⟨key, value⟩ := member
    rw [memberReferences, List.mem_append, ih]
    simp only [List.mem_cons, exists_eq_or_imp, Prod.mk.injEq]
    by_cases own : key = "$ref"
    · have text : reference ∈ value.string?.toList ↔ .string reference = value := by
        cases value <;> simp [Json.string?, eq_comm]
      simp [own, text, or_assoc]
    · have different : "$ref" ≠ key := fun same => own same.symm
      simp [own, different, or_left_comm]

theorem mem_itemReferences {reference : String} {items : List Json} :
    reference ∈ itemReferences items ↔ ∃ value ∈ items, reference ∈ references value := by
  induction items with
  | nil => simp [itemReferences]
  | cons value rest ih => simp [itemReferences, ih]

theorem Mentions.mem_references {reference : String} {value : Json}
    (h : Mentions reference value) : reference ∈ references value := by
  induction h with
  | ref declared =>
    rw [references]
    exact mem_memberReferences.2 (Or.inl declared)
  | member declared other _ ih =>
    rw [references]
    exact mem_memberReferences.2 (Or.inr ⟨_, declared, other, ih⟩)
  | item listed _ ih =>
    rw [references]
    exact mem_itemReferences.2 ⟨_, listed, ih⟩

/-- Whatever is listed among the references of a value, the value contains. -/
theorem mentions_of_mem_references {reference : String} :
    ∀ value : Json, reference ∈ references value → Mentions reference value
  | .object members, h => by
    rw [references, mem_memberReferences] at h
    rcases h with own | ⟨⟨key, value⟩, declared, other, inside⟩
    · exact .ref own
    · have := Json.sizeOf_lt_of_mem_members declared
      exact .member declared other (mentions_of_mem_references value inside)
  | .array items, h => by
    rw [references, mem_itemReferences] at h
    obtain ⟨value, listed, inside⟩ := h
    have := List.sizeOf_lt_of_mem listed
    exact .item listed (mentions_of_mem_references value inside)
  | .null, h | .bool _, h | .number _, h | .string _, h => by
    rw [references] at h
    · cases h
    all_goals simp
termination_by value => sizeOf value
decreasing_by
  all_goals simp only [Json.object.sizeOf_spec, Json.array.sizeOf_spec]
  all_goals omega

theorem mem_references_iff {reference : String} {value : Json} :
    reference ∈ references value ↔ Mentions reference value :=
  ⟨mentions_of_mem_references value, Mentions.mem_references⟩

theorem mem_strings_of_member {text key : String} {value : Json} {members : List (String × Json)}
    (declared : (key, value) ∈ members) (inside : text ∈ strings value) :
    text ∈ strings (.object members) := by
  rw [strings]
  induction members with
  | nil => cases declared
  | cons member rest ih =>
    obtain ⟨name, first⟩ := member
    rw [memberStrings, List.mem_append]
    rcases List.mem_cons.1 declared with same | later
    · cases same
      exact Or.inl inside
    · exact Or.inr (ih later)

theorem mem_strings_of_item {text : String} {value : Json} {items : List Json}
    (listed : value ∈ items) (inside : text ∈ strings value) : text ∈ strings (.array items) := by
  rw [strings]
  induction items with
  | nil => cases listed
  | cons first rest ih =>
    rw [itemStrings, List.mem_append]
    rcases List.mem_cons.1 listed with rfl | later
    · exact Or.inl inside
    · exact Or.inr (ih later)

/-- A reference is one of the strings of the value that contains it. -/
theorem Mentions.mem_strings {reference : String} {value : Json} (h : Mentions reference value) :
    reference ∈ strings value := by
  induction h with
  | ref declared => exact mem_strings_of_member declared (by simp [strings])
  | member declared _ _ ih => exact mem_strings_of_member declared ih
  | item listed _ ih => exact mem_strings_of_item listed ih

theorem mem_strings_of_get? {text key : String} {value part : Json}
    (found : value.get? key = some part) (inside : text ∈ strings part) : text ∈ strings value := by
  cases value with
  | object members => exact mem_strings_of_member (Json.mem_of_lookup found) inside
  | _ => cases found

theorem mem_strings_of_child? {text : String} {value part : Json} {segment : List Char}
    (found : child? value segment = some part) (inside : text ∈ strings part) :
    text ∈ strings value := by
  cases value with
  | object members => exact mem_strings_of_member (Json.mem_of_lookup found) inside
  | array items =>
    obtain ⟨index, -, listed⟩ := Option.bind_eq_some_iff.1 found
    exact mem_strings_of_item (List.mem_of_getElem? listed) inside
  | _ => cases found

/-- The strings of the part of a document that a pointer leads to are strings of the document. -/
theorem mem_strings_of_resolve? {text pointer : String} {document part : Json}
    (found : resolve? document pointer = some part) (inside : text ∈ strings part) :
    text ∈ strings document := by
  have walk (segments : List (List Char)) (value : Json)
      (found : segments.foldlM child? value = some part) : text ∈ strings value := by
    induction segments generalizing value with
    | nil =>
      cases found
      exact inside
    | cons segment rest ih =>
      rw [List.foldlM_cons] at found
      obtain ⟨next, first, later⟩ := Option.bind_eq_some_iff.1 found
      exact mem_strings_of_child? first (ih next later)
  unfold resolve? at found
  split at found
  · cases found
    exact inside
  · exact walk _ _ found
  · cases found

end ZodModules.OpenApi
