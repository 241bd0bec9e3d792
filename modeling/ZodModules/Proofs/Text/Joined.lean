import ZodModules.Proofs.Text.Boundaries

/-!
# Joined texts

Texts with a separator between each two of them: when the identifiers of each can be renamed by
itself, and when each stays the same if the whole does.
-/

namespace ZodModules.Code

section Renaming

variable {renamed? : String → Option String} {separator : List Char} {parts : List (List Char)}

theorem isNeat_intercalate (neat : IsNeat separator) (all : ∀ part ∈ parts, IsNeat part) :
    IsNeat (separator.intercalate parts) := by
  induction parts with
  | nil => exact isNeat_of_all rfl
  | cons part rest ih =>
    rw [List.forall_mem_cons] at all
    cases rest with
    | nil =>
      rw [List.intercalate_singleton]
      exact all.1
    | cons next rest =>
      rw [List.intercalate_cons_cons]
      exact (all.1.append neat).append (ih all.2)

theorem isClosed_intercalate (closed : IsClosed separator) (all : ∀ part ∈ parts, IsClosed part)
    (nonempty : parts ≠ []) : IsClosed (separator.intercalate parts) := by
  induction parts with
  | nil => exact absurd rfl nonempty
  | cons part rest ih =>
    rw [List.forall_mem_cons] at all
    cases rest with
    | nil =>
      rw [List.intercalate_singleton]
      exact all.1
    | cons next rest =>
      rw [List.intercalate_cons_cons]
      exact (all.1.isNeat.append closed.isNeat).append_closed
        (ih all.2 (List.cons_ne_nil _ _))

/-- Closed texts with a closed text between each two of them are renamed one by one. -/
theorem renameFrom_intercalate (closed : IsClosed separator)
    (kept : renameFrom renamed? .nothing separator = separator)
    (all : ∀ part ∈ parts, IsClosed part) :
    renameFrom renamed? .nothing (separator.intercalate parts) =
      separator.intercalate (parts.map (renameFrom renamed? .nothing)) := by
  induction parts with
  | nil => rfl
  | cons part rest ih =>
    rw [List.forall_mem_cons] at all
    cases rest with
    | nil =>
      rw [List.map_singleton, List.intercalate_singleton, List.intercalate_singleton]
    | cons next rest =>
      rw [List.map_cons, List.map_cons, List.intercalate_cons_cons, List.intercalate_cons_cons,
        List.append_assoc, renameFrom_append_of_closed all.1, renameFrom_append_of_closed closed,
        kept, ih all.2, List.append_assoc]
      rfl

end Renaming

section Lengths

variable {α : Type} {shorter longer : α → List Char} {list : List α}

theorem length_intercalate_le (separator : List Char)
    (le : ∀ x ∈ list, (shorter x).length ≤ (longer x).length) :
    (separator.intercalate (list.map shorter)).length ≤
      (separator.intercalate (list.map longer)).length := by
  induction list with
  | nil => exact Nat.le_refl _
  | cons x rest ih =>
    rw [List.forall_mem_cons] at le
    cases rest with
    | nil => simpa [List.intercalate_singleton] using le.1
    | cons y rest =>
      have tail := ih le.2
      simp only [List.map_cons, List.intercalate_cons_cons, List.length_append] at tail ⊢
      omega

/-- Texts none of which is shorter than its counterpart make up the same text only if each is the
same. -/
theorem eq_of_intercalate_eq {separator : List Char}
    (le : ∀ x ∈ list, (shorter x).length ≤ (longer x).length)
    (same : separator.intercalate (list.map longer) = separator.intercalate (list.map shorter)) :
    ∀ x ∈ list, longer x = shorter x := by
  induction list with
  | nil => simp
  | cons x rest ih =>
    rw [List.forall_mem_cons] at le ⊢
    cases rest with
    | nil =>
      simp only [List.map_cons, List.map_nil, List.intercalate_singleton] at same
      exact ⟨same, by simp⟩
    | cons y rest =>
      have tail := length_intercalate_le separator le.2
      simp only [List.map_cons, List.intercalate_cons_cons, List.append_assoc] at same tail
      -- What follows the longer first text is no shorter either, so the first texts are of one length.
      have lengths := congrArg List.length same
      have equal : (longer x).length = (shorter x).length := by
        have first := le.1
        simp only [List.length_append] at lengths
        omega
      obtain ⟨head, others⟩ := List.append_inj same equal
      exact ⟨head, ih le.2 (List.append_cancel_left others)⟩

end Lengths

end ZodModules.Code
