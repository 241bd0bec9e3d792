import ZodModules.Proofs.Text.Templates
import ZodModules.Text.Quoted

/-!
# Texts that are read apart

When the identifiers of two texts can be renamed one text after the other: no string literal may be
open between them, and no word may go on from one into the other.
-/

namespace ZodModules.Code

variable {renamed? : String → Option String}

/-- Whether no string literal is open. -/
def Pending.IsOpen : Pending → Prop
  | literal _ _ _ => False
  | _ => True

/-- A text in which each string literal that begins ends too. -/
def IsNeat (text : List Char) : Prop :=
  ∀ pending : Pending, pending.IsOpen → (scan pending text).1.IsOpen

/-- A text after which nothing is pending. -/
def IsClosed (text : List Char) : Prop :=
  ∀ pending : Pending, pending.IsOpen → (scan pending text).1 = .nothing

/-- A text that no word goes on into. -/
def Breaks (text : List Char) : Prop :=
  ∃ c rest, text = c :: rest ∧ ¬ isWordChar c

theorem IsClosed.isNeat {text : List Char} (closed : IsClosed text) : IsNeat text := by
  intro pending isOpen
  rw [closed pending isOpen]
  trivial

theorem IsNeat.append {first second : List Char} (neat : IsNeat first) (neat' : IsNeat second) :
    IsNeat (first ++ second) := by
  intro pending isOpen
  rw [scan_append]
  exact neat' _ (neat pending isOpen)

theorem IsNeat.append_closed {first second : List Char} (neat : IsNeat first)
    (closed : IsClosed second) : IsClosed (first ++ second) := by
  intro pending isOpen
  rw [scan_append]
  exact closed _ (neat pending isOpen)

theorem isOpen_step {pending : Pending} (isOpen : pending.IsOpen) {c : Char} (plain : ¬ isQuote c) :
    (step pending c).1.IsOpen := by
  have started : (start c).1.IsOpen := by
    rw [start, if_neg plain]
    split <;> trivial
  cases pending with
  | nothing => exact started
  | word read =>
    rw [step]
    split
    · trivial
    · exact started
  | literal quote escaped read => exact isOpen.elim

/-- A text without quotes is neat. -/
theorem isNeat_of_not_isQuote {text : List Char} (plain : ∀ c ∈ text, ¬ isQuote c) :
    IsNeat text := by
  induction text with
  | nil => exact fun pending isOpen => isOpen
  | cons c rest ih =>
    rw [List.forall_mem_cons] at plain
    intro pending isOpen
    exact ih plain.2 _ (isOpen_step isOpen plain.1)

theorem isNeat_of_all {text : List Char} (plain : text.all (!isQuote ·) = true) : IsNeat text := by
  refine isNeat_of_not_isQuote fun c member => ?_
  have other := List.all_eq_true.1 plain c member
  simpa using other

theorem isNeat_of_isWordChar {text : List Char} (word : ∀ c ∈ text, isWordChar c) : IsNeat text :=
  isNeat_of_not_isQuote fun c member => not_isQuote_of_isWordChar (word c member)

/-- A text without quotes is closed if its last character belongs to no word. -/
theorem isClosed_of_all {text : List Char} {last : Char} (plain : text.all (!isQuote ·) = true)
    (other : isQuote last = false) (stops : isWordChar last = false) :
    IsClosed (text ++ [last]) := by
  refine (isNeat_of_all plain).append_closed fun pending isOpen => ?_
  have started : (start last).1 = .nothing := by
    rw [start, other, stops]
    rfl
  cases pending with
  | nothing => exact started
  | word read =>
    show (step (.word read) last).1 = .nothing
    rw [step, stops]
    exact started
  | literal quote escaped read => exact isOpen.elim

theorem step_quoted (read : List Char) {c : Char} (quote : c ≠ '"') (backslash : c ≠ '\\') :
    step (.literal '"' false read) c = (.literal '"' false (c :: read), []) := by
  rw [step, if_neg backslash, if_neg quote]

theorem step_quoted_digit (read : List Char) {n : Nat} (small : n < 16) :
    step (.literal '"' false read) (Quoted.hexDigit n) =
      (.literal '"' false (Quoted.hexDigit n :: read), []) := by
  have digits : ∀ n < 16, Quoted.hexDigit n ≠ '"' ∧ Quoted.hexDigit n ≠ '\\' := by decide
  exact step_quoted read (digits n small).1 (digits n small).2

/-- The form of one character inside quotes does not end the literal. -/
theorem scan_escape (read : List Char) (c : Char) :
    scan (.literal '"' false read) (Quoted.escape c) =
      (.literal '"' false ((Quoted.escape c).reverse ++ read), []) := by
  unfold Quoted.escape
  by_cases quote : c = '"'
  · rw [if_pos quote]
    rfl
  · rw [if_neg quote]
    by_cases backslash : c = '\\'
    · rw [if_pos backslash]
      rfl
    · rw [if_neg backslash]
      split
      · rfl
      · split
        · rfl
        · split
          · rfl
          · split
            · rfl
            · split
              · rfl
              · split
                · rename_i control
                  have first : c.toNat / 16 < 16 := by omega
                  have second : c.toNat % 16 < 16 := Nat.mod_lt _ (by decide)
                  show scan (.literal '"' false ('0' :: '0' :: 'u' :: '\\' :: read))
                    [Quoted.hexDigit (c.toNat / 16), Quoted.hexDigit (c.toNat % 16)] = _
                  rw [scan, scan, step_quoted_digit _ first, step_quoted_digit _ second]
                  rfl
                · rw [scan, step_quoted read quote backslash]
                  rfl

/-- The inside of a quoted text is read as such. -/
theorem scan_escaped (read text : List Char) :
    scan (.literal '"' false read) (text.flatMap Quoted.escape) =
      (.literal '"' false ((text.flatMap Quoted.escape).reverse ++ read), []) := by
  induction text generalizing read with
  | nil => rfl
  | cons c rest ih =>
    rw [List.flatMap_cons, scan_append, scan_escape, ih, List.reverse_append, List.append_assoc]
    rfl

/-- A quoted text is one literal. -/
theorem scan_quoted (text : List Char) :
    scan .nothing (Quoted.chars text) = (.nothing, [.literal (Quoted.chars text)]) := by
  have opened : step .nothing '"' = (.literal '"' false ['"'], []) := rfl
  unfold Quoted.chars
  rw [List.cons_append, scan, opened, scan_append, scan_escaped]
  simp [scan, step]

theorem isClosed_quoted (text : List Char) : IsClosed (Quoted.chars text) := by
  intro pending isOpen
  have closed := congrArg Prod.fst (scan_quoted text)
  cases pending with
  | nothing => exact closed
  | word read => exact closed
  | literal quote escaped read => exact isOpen.elim

theorem isNeat_quote (text : String) : IsNeat (quote text).toList := by
  rw [quote, String.toList_ofList]
  exact (isClosed_quoted _).isNeat

theorem renameFrom_quoted (text : List Char) :
    renameFrom renamed? .nothing (Quoted.chars text) = Quoted.chars text := by
  rw [renameFrom, piecesFrom_eq_scan, scan_quoted]
  simp [Pending.finish, Piece.rename, Piece.text]

theorem renameFrom_identifier {name : String} (identifier : IsIdentifier name.toList) :
    renameFrom renamed? .nothing name.toList = (newName renamed? name).toList := by
  have word := scan_letters identifier.ne_nil identifier.2
  rw [renameFrom, piecesFrom_eq_scan, word, List.nil_append, Pending.finish, List.reverse_reverse,
    List.flatMap_singleton, rename_identifier identifier]

theorem renameFrom_append_of_closed {first : List Char} (closed : IsClosed first)
    (second : List Char) :
    renameFrom renamed? .nothing (first ++ second) =
      renameFrom renamed? .nothing first ++ renameFrom renamed? .nothing second := by
  have state := closed .nothing trivial
  rw [renameFrom_append, state]
  unfold renameFrom
  rw [piecesFrom_eq_scan .nothing first, state, List.flatMap_append]
  simp [Pending.finish]

/-- Two texts that are read apart are renamed apart. -/
theorem renameFrom_append_of_breaks {first second : List Char} (neat : IsNeat first)
    (breaks : Breaks second) :
    renameFrom renamed? .nothing (first ++ second) =
      renameFrom renamed? .nothing first ++ renameFrom renamed? .nothing second := by
  obtain ⟨c, rest, rfl, stops⟩ := breaks
  have isOpen := neat .nothing trivial
  rw [renameFrom_append]
  unfold renameFrom
  rw [piecesFrom_eq_scan .nothing first, List.flatMap_append, List.append_assoc]
  congr 1
  cases state : (scan .nothing first).1 with
  | nothing => rfl
  | word read =>
    rw [piecesFrom_cons, piecesFrom_cons, step_word_of_not read stops, Pending.finish,
      List.flatMap_singleton]
    rfl
  | literal quote escaped read =>
    rw [state] at isOpen
    exact isOpen.elim

/-- A text without words stays as it is. -/
theorem renameFrom_of_all {text : List Char}
    (plain : text.all (fun c => !isQuote c && !isWordChar c) = true) :
    renameFrom renamed? .nothing text = text := by
  induction text with
  | nil => rfl
  | cons c rest ih =>
    rw [List.all_cons, Bool.and_eq_true] at plain
    have own : isQuote c = false ∧ isWordChar c = false := by simpa using plain.1
    have first : step .nothing c = (.nothing, [.other c]) := by
      rw [step, start, own.1, own.2]
      rfl
    have same := ih plain.2
    unfold renameFrom at same ⊢
    rw [piecesFrom_cons, first, List.flatMap_append, same]
    rfl

end ZodModules.Code
