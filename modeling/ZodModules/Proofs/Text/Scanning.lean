import ZodModules.Text.Code

/-!
# Scanning code

The pieces of a text come out one character at a time, so the pieces of a text and of what follows
it can be found one after the other. No character is lost, and without renames none is changed.
-/

namespace ZodModules.Code

/-- The characters of a pending piece. -/
def Pending.read : Pending → List Char
  | nothing => []
  | word read => read.reverse
  | literal _ _ read => read.reverse

/-- The piece that a pending one becomes at the end of the text. -/
def Pending.finish : Pending → List Piece
  | nothing => []
  | word read => [.word read.reverse]
  | literal _ _ read => [.literal read.reverse]

/-- What a character makes of the pending piece, and the pieces that it completes. -/
def step : Pending → Char → Pending × List Piece
  | .nothing, c => start c
  | .word read, c =>
    if isWordChar c then (.word (c :: read), [])
    else ((start c).1, .word read.reverse :: (start c).2)
  | .literal quote true read, c => (.literal quote false (c :: read), [])
  | .literal quote false read, c =>
    if c = '\\' then (.literal quote true (c :: read), [])
    else if c = quote then (.nothing, [.literal (c :: read).reverse])
    else (.literal quote false (c :: read), [])

/-- What a text makes of the pending piece, and the pieces that it completes. -/
def scan (pending : Pending) : List Char → Pending × List Piece
  | [] => (pending, [])
  | c :: rest =>
    ((scan (step pending c).1 rest).1, (step pending c).2 ++ (scan (step pending c).1 rest).2)

theorem piecesFrom_cons (pending : Pending) (c : Char) (rest : List Char) :
    piecesFrom pending (c :: rest) = (step pending c).2 ++ piecesFrom (step pending c).1 rest := by
  cases pending with
  | nothing => rfl
  | word read =>
    rw [piecesFrom, step]
    split <;> rfl
  | literal quote escaped read =>
    cases escaped with
    | true => rfl
    | false =>
      rw [piecesFrom, step]
      split
      · rfl
      · split <;> rfl

theorem piecesFrom_eq_scan (pending : Pending) (text : List Char) :
    piecesFrom pending text = (scan pending text).2 ++ (scan pending text).1.finish := by
  induction text generalizing pending with
  | nil => cases pending <;> rfl
  | cons c rest ih => rw [piecesFrom_cons, ih, scan, List.append_assoc]

theorem scan_append (pending : Pending) (first second : List Char) :
    scan pending (first ++ second) =
      ((scan (scan pending first).1 second).1,
        (scan pending first).2 ++ (scan (scan pending first).1 second).2) := by
  induction first generalizing pending with
  | nil => rfl
  | cons c rest ih => simp only [List.cons_append, scan, ih, List.append_assoc]

theorem piecesFrom_append (pending : Pending) (first second : List Char) :
    piecesFrom pending (first ++ second) =
      (scan pending first).2 ++ piecesFrom (scan pending first).1 second := by
  rw [piecesFrom_eq_scan, scan_append, piecesFrom_eq_scan, List.append_assoc]

/-- A character that belongs to no word ends one. -/
theorem step_word_of_not (read : List Char) {c : Char} (other : ¬ isWordChar c) :
    step (.word read) c = ((start c).1, .word read.reverse :: (start c).2) := by
  rw [step, if_neg other]

theorem text_start (c : Char) :
    (start c).2.flatMap Piece.text ++ (start c).1.read = [c] := by
  unfold start
  split
  · rfl
  · split <;> rfl

theorem text_step (pending : Pending) (c : Char) :
    (step pending c).2.flatMap Piece.text ++ (step pending c).1.read = pending.read ++ [c] := by
  cases pending with
  | nothing => exact text_start c
  | word read =>
    rw [step]
    split
    · simp [Pending.read]
    · rw [List.flatMap_cons, List.append_assoc, text_start]
      rfl
  | literal quote escaped read =>
    cases escaped with
    | true => simp [step, Pending.read]
    | false =>
      rw [step]
      split
      · simp [Pending.read]
      · split <;> simp [Pending.read, Piece.text]

/-- A scan keeps all characters. -/
theorem text_scan (pending : Pending) (text : List Char) :
    (scan pending text).2.flatMap Piece.text ++ (scan pending text).1.read =
      pending.read ++ text := by
  induction text generalizing pending with
  | nil => simp [scan]
  | cons c rest ih =>
    rw [scan, List.flatMap_append, List.append_assoc, ih, ← List.append_assoc, text_step]
    simp

theorem text_finish (pending : Pending) : pending.finish.flatMap Piece.text = pending.read := by
  cases pending <;> simp [Pending.finish, Pending.read, Piece.text]

/-- The pieces of a text make up the text. -/
theorem text_pieces (text : List Char) : (pieces text).flatMap Piece.text = text := by
  rw [pieces, piecesFrom_eq_scan, List.flatMap_append, text_finish, text_scan]
  rfl

/-- Without new names nothing is renamed. -/
theorem rename_of_none {renamed? : String → Option String} (kept : ∀ name, renamed? name = none)
    (code : String) : rename renamed? code = code := by
  have same (piece : Piece) : piece.rename renamed? = piece.text := by
    cases piece with
    | word text =>
      rw [Piece.rename, kept]
      split <;> rfl
    | literal text => rfl
    | other char => rfl
  rw [rename, funext same, text_pieces, String.ofList_toList]

end ZodModules.Code
