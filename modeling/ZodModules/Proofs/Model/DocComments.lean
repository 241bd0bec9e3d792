import ZodModules.Model.DocComment
import ZodModules.Proofs.Json.Printing

/-!
# Doc comments as they are read

Whatever a description or an example says, the doc comment of a model is one comment: read from its
start, the first end mark is its own last one, and each of its lines but the first has the margin.
-/

namespace ZodModules

namespace Text

/-- A line that is ended by a line feed is read as such, and the rest by itself. -/
theorem lines_append {line : List Char} (single : '\n' ∉ line) (rest : List Char) :
    lines (line ++ '\n' :: rest) = line :: lines rest := by
  induction line with
  | nil => rfl
  | cons c line ih =>
    rw [List.mem_cons, not_or] at single
    rw [List.cons_append, lines, if_neg (Ne.symm single.1), ih single.2]

theorem lines_flatMap {parts : List (List Char)} (single : ∀ part ∈ parts, '\n' ∉ part)
    (rest : List Char) : lines (parts.flatMap (· ++ ['\n']) ++ rest) = parts ++ lines rest := by
  induction parts with
  | nil => rfl
  | cons part parts ih =>
    rw [List.forall_mem_cons] at single
    rw [List.flatMap_cons, List.append_assoc, List.append_assoc, List.singleton_append,
      lines_append single.1, ih single.2, List.cons_append]

theorem lines_eq_nil_iff {text : List Char} : lines text = [] ↔ text = [] := by
  cases text with
  | nil => simp [lines]
  | cons c rest =>
    rw [lines]
    split
    · simp
    · split <;> simp

/-- A separator between each two of some texts and one after the last make one after each. -/
theorem intercalate_append {parts : List (List Char)} (nonempty : parts ≠ [])
    (separator : List Char) :
    separator.intercalate parts ++ separator = parts.flatMap (· ++ separator) := by
  induction parts with
  | nil => exact absurd rfl nonempty
  | cons part rest ih =>
    cases rest with
    | nil => simp
    | cons next rest =>
      rw [List.intercalate_cons_cons, List.append_assoc, ih (List.cons_ne_nil _ _)]
      rfl

end Text

namespace Model

/-- What follows the first end mark of comments in a text. -/
def pastEndMark? : List Char → Option (List Char)
  | '*' :: '/' :: rest => some rest
  | _ :: rest => pastEndMark? rest
  | [] => none

/-- No end mark stands in a line or begins with its last character, so that the line feed after it
is passed as well. -/
def IsUnended (line : List Char) : Prop :=
  ∀ rest, pastEndMark? (line ++ '\n' :: rest) = pastEndMark? rest

/-- A text that is one comment with a line feed after it, and a margin before its further lines. -/
structure IsDocComment (text : List Char) : Prop where
  opens : "/**".toList <+: text
  /-- In any file, what follows the first end mark is what follows the comment. -/
  ends : ∀ rest, pastEndMark? (text ++ rest) = some ('\n' :: rest)
  margins : ∀ line ∈ (Text.lines text).tail, [' ', '*'] <+: line

section Reading

variable {c : Char} {part line : List Char}

theorem pastEndMark?_of_ne_star (ordinary : c ≠ '*') (rest : List Char) :
    pastEndMark? (c :: rest) = pastEndMark? rest := by
  rw [pastEndMark?]
  simp [ordinary]

theorem pastEndMark?_of_ne_slash (ordinary : c ≠ '/') (rest : List Char) :
    pastEndMark? ('*' :: c :: rest) = pastEndMark? (c :: rest) := by
  rw [pastEndMark?]
  simp [ordinary]

/-- Escaping leaves the first character as it is. -/
theorem exists_escapeComment_cons (c : Char) (rest : List Char) :
    ∃ tail, escapeComment (c :: rest) = c :: tail := by
  rw [escapeComment.eq_def]
  split <;> simp_all

theorem isUnended_escapeComment (part : List Char) : IsUnended (escapeComment part) := by
  intro rest
  fun_induction escapeComment part with
  | case1 part ih =>
    rw [List.cons_append, List.cons_append, List.cons_append,
      pastEndMark?_of_ne_slash (by decide), pastEndMark?_of_ne_star (by decide),
      pastEndMark?_of_ne_star (by decide), ih]
  | case2 c part other ih =>
    rw [List.cons_append, ← ih]
    by_cases star : c = '*'
    · subst star
      cases part with
      | nil => exact pastEndMark?_of_ne_slash (by decide) rest
      | cons d part =>
        -- The first character after the star stays the first one, and it is no slash.
        have ordinary : d ≠ '/' := by
          rintro rfl
          exact other part rfl rfl
        obtain ⟨tail, head⟩ := exists_escapeComment_cons d part
        rw [head, List.cons_append, pastEndMark?_of_ne_slash ordinary]
    · exact pastEndMark?_of_ne_star star _
  | case3 => exact pastEndMark?_of_ne_star (by decide) rest

theorem not_mem_escapeComment (single : '\n' ∉ part) : '\n' ∉ escapeComment part := by
  fun_induction escapeComment part with
  | case1 part ih => simp_all
  | case2 c part other ih => simp_all
  | case3 => exact single

theorem not_mem_trimEnd (single : '\n' ∉ line) : '\n' ∉ Text.trimEnd line := by
  intro member
  exact single ((List.rdropWhile_prefix Text.isBlank line).subset member)

theorem not_mem_docLine (single : '\n' ∉ line) : '\n' ∉ docLine line := by
  unfold docLine
  split <;> simp [single]

theorem prefix_docLine (line : List Char) : [' ', '*'] <+: docLine line := by
  unfold docLine
  split <;> simp

theorem IsUnended.docLine (unended : IsUnended line) : IsUnended (docLine line) := by
  intro rest
  unfold Model.docLine
  split
  · exact pastEndMark?_of_ne_slash (by decide) rest
  · exact unended rest

theorem pastEndMark?_flatMap {lines : List (List Char)} (unended : ∀ line ∈ lines, IsUnended line)
    (rest : List Char) :
    pastEndMark? (lines.flatMap (· ++ ['\n']) ++ rest) = pastEndMark? rest := by
  induction lines with
  | nil => rfl
  | cons line lines ih =>
    rw [List.forall_mem_cons] at unended
    rw [List.flatMap_cons, List.append_assoc, List.append_assoc, List.singleton_append,
      unended.1, ih unended.2]

end Reading

section Lines

variable {model : Model} {line : List Char}

/-- Each line is a line of the description or the example, with its end marks escaped. -/
theorem exists_of_mem_docLines (member : line ∈ model.docLines) :
    ∃ part, '\n' ∉ part ∧
      (line = escapeComment part ∨ line = "@example ".toList ++ escapeComment part) := by
  rcases List.mem_append.1 member with described | shown
  · split at described
    · simp at described
    · obtain ⟨original, inside, rfl⟩ := List.mem_map.1 described
      exact ⟨_, not_mem_trimEnd (Text.not_mem_of_mem_lines inside), .inl rfl⟩
  · split at shown
    · simp at shown
    · rename_i value _
      exact ⟨_, value.isPrinted_text.not_mem_newline, .inr (List.mem_singleton.1 shown)⟩

theorem not_mem_of_mem_docLines (member : line ∈ model.docLines) : '\n' ∉ line := by
  obtain ⟨part, single, rfl | rfl⟩ := exists_of_mem_docLines member
  · exact not_mem_escapeComment single
  · simp [not_mem_escapeComment single]

theorem isUnended_of_mem_docLines (member : line ∈ model.docLines) : IsUnended line := by
  obtain ⟨part, -, rfl | rfl⟩ := exists_of_mem_docLines member
  · exact isUnended_escapeComment part
  · exact isUnended_escapeComment part

end Lines

/-- The characters of a comment: the opening, each line with its margin, and the end mark. -/
theorem toList_docComment {model : Model} {text : String} (block : model.docComment? = some text) :
    text.toList = "/**".toList ++ '\n' ::
      ((model.docLines.map docLine).flatMap (· ++ ['\n']) ++ " */\n".toList) := by
  unfold docComment? at block
  split at block
  · simp at block
  · rename_i nonempty
    have lines_nonempty : model.docLines.map docLine ≠ [] := by simpa using nonempty
    have letters : (model.docLines.map fun line => String.ofList (docLine line)).map
        String.toList = model.docLines.map docLine := by simp [Function.comp_def]
    rw [← Option.some.inj block, String.toList_append, String.toList_append,
      String.toList_intercalate, letters, ← Text.intercalate_append lines_nonempty]
    simp

/-- There is a comment unless there is neither an example nor a description with some text. -/
theorem docComment?_eq_none_iff (model : Model) :
    model.docComment? = none ↔
      (∀ text, model.description = some text → text = "") ∧ model.example? = none := by
  have empty : model.docComment? = none ↔ model.docLines = [] := by
    unfold docComment?
    split <;> simp_all
  rw [empty, docLines, List.append_eq_nil_iff]
  refine and_congr ?_ ?_
  · cases model.description with
    | none => simp
    | some text => simp [Text.lines_eq_nil_iff]
  · cases model.example? <;> simp

/-- The lines of a comment are those of the model under the margin, between its two ends. -/
theorem lines_docComment {model : Model} {text : String} (block : model.docComment? = some text) :
    Text.lines text.toList = "/**".toList :: model.docLines.map docLine ++ [" */".toList] := by
  have single : ∀ line ∈ model.docLines.map docLine, '\n' ∉ line :=
    List.forall_mem_map.2 fun _ inside => not_mem_docLine (not_mem_of_mem_docLines inside)
  rw [toList_docComment block, Text.lines_append (by decide), Text.lines_flatMap single]
  rfl

/-- What follows the first end mark of a comment is what follows the comment. -/
theorem pastEndMark?_docComment {model : Model} {text : String}
    (block : model.docComment? = some text) (rest : List Char) :
    pastEndMark? (text.toList ++ rest) = some ('\n' :: rest) := by
  have unended : ∀ line ∈ model.docLines.map docLine, IsUnended line :=
    List.forall_mem_map.2 fun _ inside => (isUnended_of_mem_docLines inside).docLine
  rw [toList_docComment block, List.append_assoc, List.cons_append, List.append_assoc]
  -- The opening is passed character by character; no end mark begins with its last star.
  show pastEndMark? ((model.docLines.map docLine).flatMap (· ++ ['\n']) ++ _) = _
  rw [pastEndMark?_flatMap unended]
  rfl

/-- There is a doc comment just if a model has something to say, and it is one comment, whatever its
description and its example are: neither ends it early, and neither leaves the margin. -/
theorem docComment_closes_itself (model : Model) :
    (model.docComment? = none ↔
      (∀ text, model.description = some text → text = "") ∧ model.example? = none) ∧
      ∀ text, model.docComment? = some text → IsDocComment text.toList := by
  refine ⟨docComment?_eq_none_iff model, fun text block => ⟨?_, pastEndMark?_docComment block, ?_⟩⟩
  · rw [toList_docComment block]
    exact List.prefix_append _ _
  · intro line member
    rw [lines_docComment block, List.cons_append, List.tail_cons] at member
    rcases List.mem_append.1 member with inside | last
    · obtain ⟨original, -, rfl⟩ := List.mem_map.1 inside
      exact prefix_docLine original
    · rw [List.mem_singleton.1 last]
      decide

/-- A model whose description and example try to end the comment. -/
def hostile : Model where
  name := "Order"
  typeName := "Order"
  validatorName := "OrderSchema"
  validator := "z.string()"
  typing := .inferred
  enums := []
  references := []
  isRecursive := false
  properties := []
  isObject := false
  description := some "First **/\n/ second *\n\n*/ \n"
  example? := some (.string "*/\n")

/-- The comment of that model. -/
def hostileComment : String :=
  "/**\n * First **\\/\n * / second *\n *\n * *\\/\n * @example \"*\\/\\n\"\n */\n"

theorem docComment_hostile :
    hostile.docComment? = some hostileComment ∧ IsDocComment hostileComment.toList := by
  have block : hostile.docComment? = some hostileComment := by decide +kernel
  exact ⟨block, (docComment_closes_itself hostile).2 hostileComment block⟩

end Model

end ZodModules
