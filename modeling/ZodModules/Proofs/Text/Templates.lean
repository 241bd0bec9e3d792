import ZodModules.Proofs.Text.Scanning

/-!
# Renaming the constants of a text

A text that uses constants in some places is renamed as intended if just these constants are renamed.
This depends on how the text is read: no other word may have a new name, and no constant that has one
may stand where the text is read as a string literal.
-/

namespace ZodModules.Code

variable {renamed? : String → Option String}

/-- The part of a text that stays, or a use of a constant that lists literals. -/
inductive Segment where
  | plain (text : List Char)
  | enum (constant : String)

/-- The characters of a segment under some names of the constants. -/
def Segment.chars (named : String → String) : Segment → List Char
  | plain text => text
  | enum constant => "z.enum(".toList ++ ((named constant).toList ++ [')'])

/-- The text of some segments under some names of the constants. -/
def render (named : String → String) (template : List Segment) : List Char :=
  template.flatMap (Segment.chars named)

/-- The name that a name is replaced by. -/
def newName (renamed? : String → Option String) (name : String) : String :=
  (renamed? name).getD name

/-- Whether pieces stay as they are. -/
def Keeps (renamed? : String → Option String) (pieces : List Piece) : Prop :=
  ∀ piece ∈ pieces, piece.rename renamed? = piece.text

/-- How a text is read after a pending piece for just its constants to be renamed: all other words
stay, and a constant with a new name is not read as the contents of a string literal. -/
def Reads (renamed? : String → Option String) : Pending → List Segment → Prop
  | pending, [] => Keeps renamed? pending.finish
  | pending, .plain text :: rest =>
    Keeps renamed? (scan pending text).2 ∧ Reads renamed? (scan pending text).1 rest
  | pending, .enum constant :: rest =>
    Keeps renamed? (scan pending "z.enum(".toList).2 ∧
      ((renamed? constant).isSome → (scan pending "z.enum(".toList).1 = .nothing) ∧
        Reads renamed? (scan pending (Segment.chars id (.enum constant))).1 rest

/-- New names are old ones with further characters of identifiers. -/
def Lengthens (renamed? : String → Option String) : Prop :=
  ∀ name new, renamed? name = some new →
    ∃ c rest, new.toList = name.toList ++ c :: rest ∧ isWordChar c

/-- Whether a text is an identifier. -/
def IsIdentifier (text : List Char) : Prop :=
  (∃ c rest, text = c :: rest ∧ ¬ c.isDigit) ∧ ∀ c ∈ text, isWordChar c

/-- What a text that begins inside a pending piece becomes. -/
def renameFrom (renamed? : String → Option String) (pending : Pending) (text : List Char) :
    List Char :=
  (piecesFrom pending text).flatMap (Piece.rename renamed?)

section Templates

theorem render_append (named : String → String) (first second : List Segment) :
    render named (first ++ second) = render named first ++ render named second :=
  List.flatMap_append

theorem render_plain (named : String → String) (text : List Char) :
    render named [.plain text] = text :=
  List.append_nil text

/-- Some templates with a text between each two of them. -/
def separated (separator : String) (parts : List (List Segment)) : List Segment :=
  [Segment.plain separator.toList].intercalate parts

theorem separated_cons_cons (separator : String) (first second : List Segment)
    (rest : List (List Segment)) :
    separated separator (first :: second :: rest) =
      first ++ .plain separator.toList :: separated separator (second :: rest) := by
  rw [separated, List.intercalate_cons_cons, List.append_assoc]
  rfl

theorem render_separated (named : String → String) (separator : String)
    (parts : List (List Segment)) :
    render named (separated separator parts) =
      separator.toList.intercalate (parts.map (render named)) := by
  induction parts with
  | nil => rfl
  | cons part rest ih =>
    cases rest with
    | nil =>
      rw [separated, List.intercalate_singleton, List.map_singleton, List.intercalate_singleton]
    | cons next rest =>
      rw [separated_cons_cons, List.map_cons, List.map_cons, List.intercalate_cons_cons,
        ← List.map_cons, ← ih, render_append, List.append_assoc]
      rfl

theorem mem_separated {constant separator : String} {parts : List (List Segment)} :
    .enum constant ∈ separated separator parts ↔ ∃ part ∈ parts, .enum constant ∈ part := by
  induction parts with
  | nil => simp [separated, List.intercalate_nil]
  | cons part rest ih =>
    cases rest with
    | nil => simp [separated, List.intercalate_singleton]
    | cons next rest =>
      rw [separated_cons_cons, List.mem_append, List.mem_cons, ih]
      simp

theorem render_between (named : String → String) (first last : String) (template : List Segment) :
    render named (.plain first.toList :: (template ++ [.plain last.toList])) =
      first.toList ++ (render named template ++ last.toList) := by
  show first.toList ++ render named (template ++ [.plain last.toList]) = _
  rw [render_append, render_plain]

theorem render_before (named : String → String) (last : String) (template : List Segment) :
    render named (template ++ [.plain last.toList]) =
      render named template ++ last.toList := by
  rw [render_append, render_plain]

theorem mem_between {constant : String} {first last : List Char} {template : List Segment} :
    .enum constant ∈ Segment.plain first :: (template ++ [.plain last]) ↔
      .enum constant ∈ template := by
  simp

theorem mem_before {constant : String} {last : List Char} {template : List Segment} :
    .enum constant ∈ template ++ [Segment.plain last] ↔ .enum constant ∈ template := by
  simp

end Templates

theorem toList_rename (code : String) :
    (rename renamed? code).toList = renameFrom renamed? .nothing code.toList := by
  rw [rename, String.toList_ofList]
  rfl

theorem renameFrom_append (pending : Pending) (first second : List Char) :
    renameFrom renamed? pending (first ++ second) =
      (scan pending first).2.flatMap (Piece.rename renamed?) ++
        renameFrom renamed? (scan pending first).1 second := by
  unfold renameFrom
  rw [piecesFrom_append, List.flatMap_append]

theorem Keeps.flatMap_rename {pieces : List Piece} (keeps : Keeps renamed? pieces) :
    pieces.flatMap (Piece.rename renamed?) = pieces.flatMap Piece.text := by
  rw [List.flatMap_def, List.flatMap_def, List.map_congr_left keeps]

theorem Keeps.append {first second : List Piece} (keeps : Keeps renamed? first)
    (keeps' : Keeps renamed? second) : Keeps renamed? (first ++ second) := by
  intro piece member
  rcases List.mem_append.1 member with member | member
  · exact keeps piece member
  · exact keeps' piece member

/-- Text whose words stay is kept, and reading goes on after it. -/
theorem renameFrom_of_keeps {pending : Pending} {first : List Char}
    (keeps : Keeps renamed? (scan pending first).2) (second more : List Char)
    (rest : renameFrom renamed? (scan pending first).1 second = (scan pending first).1.read ++ more) :
    renameFrom renamed? pending (first ++ second) = pending.read ++ (first ++ more) := by
  rw [renameFrom_append, keeps.flatMap_rename, rest, ← List.append_assoc, text_scan,
    List.append_assoc]

/-- What a word with a new name becomes. -/
theorem rename_word_or (renamed? : String → Option String) (text : List Char) :
    (Piece.word text).rename renamed? = text ∨
      ∃ new, renamed? (String.ofList text) = some new ∧
        (Piece.word text).rename renamed? = new.toList := by
  rw [Piece.rename]
  split
  · exact Or.inl rfl
  · cases found : renamed? (String.ofList text) with
    | none => exact Or.inl rfl
    | some new => exact Or.inr ⟨new, rfl, rfl⟩

theorem keeps_start (c : Char) : Keeps renamed? (start c).2 := by
  unfold start
  split
  · simp [Keeps]
  · split
    · simp [Keeps]
    · intro piece member
      rw [List.mem_singleton.1 member]
      rfl

/-- Only the character after a word can complete a piece that gets a new name. -/
theorem keeps_step_or (renamed? : String → Option String) (pending : Pending) (c : Char) :
    Keeps renamed? (step pending c).2 ∨
      ∃ read new, pending = .word read ∧ ¬ isWordChar c ∧
        renamed? (String.ofList read.reverse) = some new ∧
        (step pending c).2.flatMap (Piece.rename renamed?) =
          new.toList ++ (start c).2.flatMap (Piece.rename renamed?) := by
  cases pending with
  | nothing => exact Or.inl (keeps_start c)
  | word read =>
    rw [step]
    by_cases word : isWordChar c
    · rw [if_pos word]
      exact Or.inl fun piece member => absurd member List.not_mem_nil
    · rw [if_neg word]
      rcases rename_word_or renamed? read.reverse with same | ⟨new, found, becomes⟩
      · left
        intro piece member
        rcases List.mem_cons.1 member with rfl | member
        · exact same
        · exact keeps_start c piece member
      · right
        exact ⟨read, new, rfl, word, found, by rw [List.flatMap_cons, becomes]⟩
  | literal quote escaped read =>
    left
    intro piece member
    cases escaped with
    | true => exact absurd member List.not_mem_nil
    | false =>
      rw [step] at member
      split at member
      · exact absurd member List.not_mem_nil
      · split at member
        · rw [List.mem_singleton.1 member]
          rfl
        · exact absurd member List.not_mem_nil

/-- If text comes out as it went in, all its words stay. -/
theorem keeps_of_output (lengthens : Lengthens renamed?) {pending : Pending} {text : List Char}
    {after more : List Char}
    (same : (scan pending text).2.flatMap (Piece.rename renamed?) ++ after =
      pending.read ++ (text ++ more)) :
    Keeps renamed? (scan pending text).2 ∧ after = (scan pending text).1.read ++ more := by
  induction text generalizing pending with
  | nil => exact ⟨fun piece member => absurd member List.not_mem_nil, same⟩
  | cons c rest ih =>
    rw [scan, List.flatMap_append, List.append_assoc] at same
    rcases keeps_step_or renamed? pending c with
      keeps | ⟨read, new, rfl, word, found, becomes⟩
    · rw [keeps.flatMap_rename] at same
      have split : pending.read ++ (c :: rest ++ more) =
          (step pending c).2.flatMap Piece.text ++ ((step pending c).1.read ++ (rest ++ more)) := by
        rw [← List.append_assoc _ (step pending c).1.read, text_step, List.append_assoc]
        rfl
      rw [split] at same
      obtain ⟨keeps', last⟩ := ih (List.append_cancel_left same)
      exact ⟨keeps.append keeps', last⟩
    · obtain ⟨d, tail, longer, char⟩ := lengthens _ _ found
      rw [becomes, longer, String.toList_ofList, List.append_assoc, List.append_assoc] at same
      have next := List.append_cancel_left same
      rw [List.cons_append, List.cons_append, List.cons.injEq] at next
      rw [next.1] at char
      exact absurd char word

/-- Text in front comes out as it went in exactly if its words stay and what follows comes out as
intended. -/
theorem renameFrom_append_iff (lengthens : Lengthens renamed?) {pending : Pending}
    {first second more : List Char} :
    renameFrom renamed? pending (first ++ second) = pending.read ++ (first ++ more) ↔
      Keeps renamed? (scan pending first).2 ∧
        renameFrom renamed? (scan pending first).1 second =
          (scan pending first).1.read ++ more := by
  constructor
  · intro same
    rw [renameFrom_append] at same
    exact keeps_of_output lengthens same
  · rintro ⟨keeps, rest⟩
    exact renameFrom_of_keeps keeps _ _ rest

/-- A literal ends at a quote like the one that it began with. -/
def Pending.IsSound : Pending → Prop
  | literal quote _ _ => isQuote quote
  | _ => True

theorem isSound_start (c : Char) : (start c).1.IsSound := by
  unfold start
  split
  · assumption
  · split <;> trivial

theorem Pending.IsSound.step {pending : Pending} (sound : pending.IsSound) (c : Char) :
    (Code.step pending c).1.IsSound := by
  cases pending with
  | nothing => exact isSound_start c
  | word read =>
    rw [Code.step]
    split
    · trivial
    · exact isSound_start c
  | literal quote escaped read =>
    cases escaped with
    | true => exact sound
    | false =>
      rw [Code.step]
      split
      · exact sound
      · split
        · trivial
        · exact sound

theorem Pending.IsSound.scan {pending : Pending} (sound : pending.IsSound) (text : List Char) :
    (Code.scan pending text).1.IsSound := by
  induction text generalizing pending with
  | nil => exact sound
  | cons c rest ih => exact ih (sound.step c)

theorem scan_word (read : List Char) {text : List Char} (word : ∀ c ∈ text, isWordChar c) :
    scan (.word read) text = (.word (text.reverse ++ read), []) := by
  induction text generalizing read with
  | nil => rfl
  | cons c rest ih =>
    rw [List.forall_mem_cons] at word
    rw [scan, step, if_pos word.1, ih (c :: read) word.2, List.reverse_cons, List.append_assoc]
    rfl

theorem not_isQuote_of_isWordChar {c : Char} (word : isWordChar c) : ¬ isQuote c := by
  intro quote
  unfold isQuote at quote
  rw [Bool.or_eq_true, beq_iff_eq, beq_iff_eq] at quote
  rcases quote with rfl | rfl
  · exact absurd word (by decide)
  · exact absurd word (by decide)

theorem ne_backslash_of_isWordChar {c : Char} (word : isWordChar c) : c ≠ '\\' := by
  rintro rfl
  exact absurd word (by decide)

/-- A text of identifier characters is read as one word, which may go on. -/
theorem scan_letters {text : List Char} (nonempty : text ≠ [])
    (letters : ∀ c ∈ text, isWordChar c) : scan .nothing text = (.word text.reverse, []) := by
  obtain ⟨c, rest, rfl⟩ := List.exists_cons_of_ne_nil nonempty
  rw [List.forall_mem_cons] at letters
  have first : step .nothing c = (.word [c], []) := by
    rw [step, start, if_neg (not_isQuote_of_isWordChar letters.1), if_pos letters.1]
  rw [scan, first, scan_word _ letters.2, List.reverse_cons]
  rfl

theorem IsIdentifier.ne_nil {text : List Char} (identifier : IsIdentifier text) : text ≠ [] := by
  obtain ⟨⟨c, rest, rfl, -⟩, -⟩ := identifier
  exact List.cons_ne_nil c rest

/-- An identifier and the parenthesis after it are read as such outside of literals. -/
theorem scan_identifier {text : List Char} (identifier : IsIdentifier text) :
    scan .nothing (text ++ [')']) = (.nothing, [.word text, .other ')']) := by
  have last : scan (.word text.reverse) [')'] =
      (.nothing, [.word text.reverse.reverse, .other ')']) := rfl
  rw [scan_append, scan_letters identifier.ne_nil identifier.2, last, List.reverse_reverse]
  rfl

/-- Inside a literal an identifier and the parenthesis after it are just read on. -/
theorem scan_literal {quote : Char} (sound : isQuote quote) (escaped : Bool) (read : List Char)
    {text : List Char} (plain : ∀ c ∈ text, isWordChar c ∨ c = ')') :
    ∃ escaped', scan (.literal quote escaped read) text =
      (.literal quote escaped' (text.reverse ++ read), []) := by
  induction text generalizing escaped read with
  | nil => exact ⟨escaped, rfl⟩
  | cons c rest ih =>
    rw [List.forall_mem_cons] at plain
    have inside : step (.literal quote escaped read) c = (.literal quote false (c :: read), []) := by
      cases escaped with
      | true => rfl
      | false =>
        have backslash : c ≠ '\\' := by
          rcases plain.1 with word | rfl
          · exact ne_backslash_of_isWordChar word
          · decide
        have other : c ≠ quote := by
          rintro rfl
          rcases plain.1 with word | rfl
          · exact not_isQuote_of_isWordChar word sound
          · exact absurd sound (by decide)
        rw [step, if_neg backslash, if_neg other]
    obtain ⟨escaped', read_on⟩ := ih false (c :: read) plain.2
    refine ⟨escaped', ?_⟩
    rw [scan, inside, read_on, List.reverse_cons, List.append_assoc]
    rfl

/-- What is read of a literal stays. -/
theorem exists_renameFrom_literal (renamed? : String → Option String) (quote : Char)
    (escaped : Bool) (read text : List Char) :
    ∃ rest, renameFrom renamed? (.literal quote escaped read) text =
      (Pending.literal quote escaped read).read ++ rest := by
  show ∃ rest, _ = read.reverse ++ rest
  induction text generalizing escaped read with
  | nil =>
    refine ⟨[], ?_⟩
    simp [renameFrom, piecesFrom, Piece.rename, Piece.text]
  | cons c rest ih =>
    have longer (escaped : Bool) :
        ∃ more, renameFrom renamed? (.literal quote escaped (c :: read)) rest =
          read.reverse ++ more := by
      obtain ⟨more, same⟩ := ih escaped (c :: read)
      exact ⟨c :: more, by rw [same, List.reverse_cons, List.append_assoc]; rfl⟩
    cases escaped with
    | true => exact longer false
    | false =>
      unfold renameFrom
      rw [piecesFrom]
      split
      · exact longer true
      · split
        · refine ⟨[c] ++ (piecesFrom .nothing rest).flatMap (Piece.rename renamed?), ?_⟩
          rw [List.flatMap_cons, Piece.rename, Piece.text, List.reverse_cons, List.append_assoc]
          intro text impossible
          cases impossible
        · exact longer false

/-- After the opening parenthesis of a call no word is pending. -/
theorem state_enumHead (pending : Pending) :
    (scan pending "z.enum(".toList).1 = .nothing ∨
      ∃ quote escaped read, (scan pending "z.enum(".toList).1 = .literal quote escaped read := by
  have split : "z.enum(".toList = "z.enum".toList ++ ['('] := rfl
  rw [split, scan_append]
  cases (scan pending "z.enum".toList).1 with
  | nothing => exact Or.inl rfl
  | word read => exact Or.inl rfl
  | literal quote escaped read =>
    cases escaped with
    | true => exact Or.inr ⟨quote, false, _, rfl⟩
    | false =>
      by_cases closes : '(' = quote
      · subst closes
        exact Or.inl rfl
      · exact Or.inr ⟨quote, false, '(' :: read, by simp [scan, step, closes]⟩

theorem rename_identifier {name : String} (identifier : IsIdentifier name.toList) :
    (Piece.word name.toList).rename renamed? = (newName renamed? name).toList := by
  obtain ⟨⟨c, rest, letters, digit⟩, -⟩ := identifier
  have head : ¬ name.toList.head?.any Char.isDigit := by
    rw [letters]
    exact digit
  rw [Piece.rename, if_neg head, String.ofList_toList, newName]
  cases renamed? name with
  | none => rfl
  | some new => rfl

theorem Lengthens.length_le_newName (lengthens : Lengthens renamed?) (name : String) :
    name.toList.length ≤ (newName renamed? name).toList.length := by
  unfold newName
  cases found : renamed? name with
  | none => exact Nat.le_refl _
  | some new =>
    obtain ⟨c, rest, longer, -⟩ := lengthens name new found
    rw [Option.getD_some, longer, List.length_append]
    exact Nat.le_add_right _ _

theorem Lengthens.newName_eq_iff (lengthens : Lengthens renamed?) {name : String} :
    newName renamed? name = name ↔ renamed? name = none := by
  unfold newName
  cases found : renamed? name with
  | none => simp
  | some new =>
    obtain ⟨c, rest, longer, -⟩ := lengthens name new found
    simp only [Option.getD_some, reduceCtorEq, iff_false]
    rintro rfl
    simp at longer

/-- A constant and the parenthesis after it come out as intended just if they are not read as the
contents of a literal or there is no new name. -/
theorem renameFrom_constant_iff (lengthens : Lengthens renamed?) {constant : String}
    (identifier : IsIdentifier constant.toList) {pending : Pending} (sound : pending.IsSound)
    (outside : pending = .nothing ∨ ∃ quote escaped read, pending = .literal quote escaped read)
    (rest more : List Char) :
    renameFrom renamed? pending (constant.toList ++ [')'] ++ rest) =
        pending.read ++ ((newName renamed? constant).toList ++ [')'] ++ more) ↔
      ((renamed? constant).isSome → pending = .nothing) ∧
        renameFrom renamed? (scan pending (constant.toList ++ [')'])).1 rest =
          (scan pending (constant.toList ++ [')'])).1.read ++ more := by
  rw [renameFrom_append]
  rcases outside with rfl | ⟨quote, escaped, read, rfl⟩
  · rw [scan_identifier identifier, List.flatMap_cons, List.flatMap_singleton,
      rename_identifier identifier]
    show (newName renamed? constant).toList ++ [')'] ++ _ = [] ++ (_ ++ more) ↔ _
    rw [List.nil_append, List.append_cancel_left_eq]
    simp [Pending.read]
  · have plain : ∀ c ∈ constant.toList ++ [')'], isWordChar c ∨ c = ')' := by
      intro c member
      rcases List.mem_append.1 member with inside | last
      · exact Or.inl (identifier.2 c inside)
      · exact Or.inr (List.mem_singleton.1 last)
    obtain ⟨escaped', read_on⟩ := scan_literal sound escaped read plain
    rw [read_on, List.flatMap_nil, List.nil_append]
    have read_all : (Pending.literal quote escaped' ((constant.toList ++ [')']).reverse ++ read)).read
        = read.reverse ++ (constant.toList ++ [')']) := by
      rw [Pending.read, List.reverse_append, List.reverse_reverse]
    obtain ⟨tail, kept⟩ := exists_renameFrom_literal renamed? quote escaped'
      ((constant.toList ++ [')']).reverse ++ read) rest
    rw [read_all] at kept
    cases found : renamed? constant with
    | none =>
      rw [newName, found, read_all, Option.getD_none, List.append_assoc read.reverse]
      simp [Pending.read]
    | some new =>
      obtain ⟨d, longer, letters, char⟩ := lengthens _ _ found
      rw [newName, found, kept, Option.getD_some, letters]
      constructor
      · intro same
        simp only [Pending.read, List.append_assoc, List.append_cancel_left_eq, List.cons_append,
          List.nil_append, List.cons.injEq] at same
        rw [← same.1] at char
        exact absurd char (by decide)
      · rintro ⟨nothing, -⟩
        cases nothing rfl

/-- A text comes out with just its constants renamed exactly if it is read that way. -/
theorem renameFrom_render_iff (lengthens : Lengthens renamed?) {template : List Segment}
    (identifiers : ∀ constant, .enum constant ∈ template → IsIdentifier constant.toList)
    {pending : Pending} (sound : pending.IsSound) :
    renameFrom renamed? pending (render id template) =
        pending.read ++ render (newName renamed?) template ↔
      Reads renamed? pending template := by
  induction template generalizing pending with
  | nil =>
    have finish : renameFrom renamed? pending [] =
        pending.finish.flatMap (Piece.rename renamed?) := by
      rw [renameFrom, piecesFrom_eq_scan]
      rfl
    show renameFrom renamed? pending [] = pending.read ++ [] ↔ Keeps renamed? pending.finish
    rw [finish, List.append_nil, ← text_finish]
    constructor
    · intro same
      cases pending with
      | nothing => exact fun piece member => absurd member List.not_mem_nil
      | word read =>
        intro piece member
        rw [List.mem_singleton.1 member]
        simpa [Pending.finish] using same
      | literal quote escaped read =>
        intro piece member
        rw [List.mem_singleton.1 member]
        rfl
    · exact Keeps.flatMap_rename
  | cons segment rest ih =>
    have identifiers' : ∀ constant, .enum constant ∈ rest → IsIdentifier constant.toList :=
      fun constant member => identifiers constant (List.mem_cons_of_mem _ member)
    cases segment with
    | plain text =>
      show renameFrom renamed? pending (text ++ render id rest) =
        pending.read ++ (text ++ render (newName renamed?) rest) ↔ _
      rw [Reads, ← ih identifiers' (sound.scan text)]
      exact renameFrom_append_iff lengthens
    | enum constant =>
      show renameFrom renamed? pending
          ("z.enum(".toList ++ (constant.toList ++ [')']) ++ render id rest) =
        pending.read ++ ("z.enum(".toList ++ ((newName renamed? constant).toList ++ [')']) ++
          render (newName renamed?) rest) ↔ _
      have call : Segment.chars id (.enum constant) =
        "z.enum(".toList ++ (constant.toList ++ [')']) := rfl
      have identifier := identifiers constant List.mem_cons_self
      rw [Reads, call, ← ih identifiers' (sound.scan _), scan_append,
        ← renameFrom_constant_iff lengthens identifier (sound.scan _) (state_enumHead pending),
        List.append_assoc, List.append_assoc]
      exact renameFrom_append_iff lengthens

/-- A text is renamed as intended exactly if it is read that way. -/
theorem rename_render_iff (lengthens : Lengthens renamed?) {template : List Segment}
    (identifiers : ∀ constant, .enum constant ∈ template → IsIdentifier constant.toList) :
    rename renamed? (String.ofList (render id template)) =
        String.ofList (render (newName renamed?) template) ↔
      Reads renamed? .nothing template := by
  have sound : Pending.nothing.IsSound := trivial
  rw [← renameFrom_render_iff lengthens identifiers sound, ← String.toList_inj, toList_rename,
    String.toList_ofList, String.toList_ofList]
  rfl

end ZodModules.Code
