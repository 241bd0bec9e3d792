/-!
# Segments

The parts of a text between its slashes.
-/

namespace ZodModules.Text

/-- The parts between the slashes of a text. -/
def segments : List Char → List (List Char)
  | [] => [[]]
  | c :: rest =>
    if c = '/' then [] :: segments rest
    else
      match segments rest with
      | [] => [[c]]
      | segment :: others => (c :: segment) :: others

theorem segments_ne_nil (text : List Char) : segments text ≠ [] := by
  cases text with
  | nil => simp [segments]
  | cons c rest =>
    rw [segments]
    split
    · simp
    · split <;> simp

theorem not_mem_of_mem_segments {text segment : List Char} (h : segment ∈ segments text) :
    '/' ∉ segment := by
  induction text generalizing segment with
  | nil => simp_all [segments]
  | cons c rest ih =>
    rw [segments] at h
    split at h
    · rcases List.mem_cons.1 h with rfl | h
      · exact List.not_mem_nil
      · exact ih h
    · rename_i hc
      split at h
      · rename_i hs
        exact absurd hs (segments_ne_nil rest)
      · rename_i first others hs
        rcases List.mem_cons.1 h with rfl | h
        · intro hmem
          rcases List.mem_cons.1 hmem with heq | hmem
          · exact hc heq.symm
          · exact ih (hs ▸ List.mem_cons_self) hmem
        · exact ih (hs ▸ List.mem_cons_of_mem _ h)

/-- A slash parts what precedes it from what follows. -/
theorem segments_append_slash (text rest : List Char) :
    segments (text ++ '/' :: rest) = segments text ++ segments rest := by
  induction text with
  | nil => simp [segments]
  | cons c text ih =>
    rw [List.cons_append, segments, segments, ih]
    split
    · rfl
    · cases parts : segments text with
      | nil => exact absurd parts (segments_ne_nil text)
      | cons first others => rfl

/-- What has no slash belongs to the first segment. -/
theorem segments_append_of_not_mem {text rest first : List Char} {others : List (List Char)}
    (plain : '/' ∉ text) (h : segments rest = first :: others) :
    segments (text ++ rest) = (text ++ first) :: others := by
  induction text with
  | nil => exact h
  | cons c text ih =>
    rw [List.mem_cons, not_or] at plain
    rw [List.cons_append, segments, if_neg (Ne.symm plain.1), ih plain.2]
    rfl

/-- The segments with slashes between them are the text. -/
theorem intercalate_segments (text : List Char) : ['/'].intercalate (segments text) = text := by
  induction text with
  | nil => rfl
  | cons c rest ih =>
    rw [segments]
    cases parts : segments rest with
    | nil => exact absurd parts (segments_ne_nil rest)
    | cons first others =>
      rw [parts] at ih
      split
      · rename_i slash
        rw [slash, List.intercalate_cons_cons, ih]
        rfl
      · rw [← ih]
        cases others <;> simp [List.intercalate]

/-- A text is known by its segments. -/
theorem segments_injective {text other : List Char} (h : segments text = segments other) :
    text = other := by
  rw [← intercalate_segments text, h, intercalate_segments]

end ZodModules.Text
