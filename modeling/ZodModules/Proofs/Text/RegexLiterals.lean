import ZodModules.Text.Regex

/-!
# Patterns as literals

A pattern between slashes ends where it is meant to, whatever it holds, and it says what it said
before. It is read in parts, a backslash together with the character after it. A slash or a line
terminator may stand in it raw, after a backslash or, if a line terminator, as its escape; to escape
the pattern turns each of these into a form that a literal may hold, and changes no other part.
-/

namespace ZodModules.Regex

/-- The characters that end a line. -/
def lineTerminators : List Char := ['\n', '\r', '\u2028', '\u2029']

/-- Reads the inside of a literal up to the first slash that no backslash takes with it. The inside
comes with what follows that slash. -/
def inside? : List Char → Option (List Char × List Char)
  | [] => none
  | '/' :: rest => some ([], rest)
  | '\\' :: c :: rest => (inside? rest).map fun read => ('\\' :: c :: read.1, read.2)
  | c :: rest => (inside? rest).map fun read => (c :: read.1, read.2)

/-- Reads a literal from its opening slash on. -/
def literal? : List Char → Option (List Char × List Char)
  | '/' :: rest => inside? rest
  | _ => none

/-- A part of a pattern: a character after a backslash, or one by itself. -/
inductive Part where
  | plain (c : Char)
  | escaped (c : Char)
deriving DecidableEq

/-- The parts of a pattern. A backslash stands by itself only if nothing follows it. -/
def parts : List Char → List Part
  | [] => []
  | '\\' :: c :: rest => .escaped c :: parts rest
  | c :: rest => .plain c :: parts rest

/-- The part that a backslash by itself, which dangles, is taken for. -/
def Part.mend : Part → Part
  | .plain '\\' => .escaped '\\'
  | part => part

/-- What a part or an escape of several parts says. -/
inductive Symbol where
  | slash
  | terminator (c : Char)
  | other (part : Part)
deriving DecidableEq

/-- What a part says by itself. -/
def Part.symbol : Part → Symbol
  | .plain c =>
    if c = '/' then .slash else if c ∈ lineTerminators then .terminator c else .other (.plain c)
  | .escaped c =>
    if c = '/' then .slash
    else if c ∈ lineTerminators then .terminator c
    else if c = 'n' then .terminator '\n'
    else if c = 'r' then .terminator '\r'
    else .other (.escaped c)

/-- What some parts say: a slash or a line terminator is the same in each of its forms. -/
def symbols : List Part → List Symbol
  | [] => []
  | .escaped 'u' :: .plain '2' :: .plain '0' :: .plain '2' :: .plain '8' :: rest =>
    .terminator '\u2028' :: symbols rest
  | .escaped 'u' :: .plain '2' :: .plain '0' :: .plain '2' :: .plain '9' :: rest =>
    .terminator '\u2029' :: symbols rest
  | part :: rest => part.symbol :: symbols rest

/-- A pass over a pattern, character by character: whether a backslash waits for the next one, and
what is written so far. -/
structure Pass where
  waiting : Bool
  written : List Char

/-- Takes one character. -/
def Pass.step (pass : Pass) (c : Char) : Pass :=
  if pass.waiting then ⟨false, pass.written ++ afterBackslash c⟩
  else if c = '\\' then ⟨true, pass.written ++ ['\\']⟩
  else ⟨false, pass.written ++ plain c⟩

/-- What is written in the end, where a backslash that still waits is escaped. -/
def Pass.finish (pass : Pass) : List Char :=
  if pass.waiting then pass.written ++ ['\\'] else pass.written

section Equations

variable {c : Char} {rest : List Char}

theorem escape_cons (backslash : c ≠ '\\') : escape (c :: rest) = plain c ++ escape rest := by
  rw [escape] <;> simp [backslash]

theorem parts_cons (backslash : c ≠ '\\') : parts (c :: rest) = .plain c :: parts rest := by
  rw [parts]
  simp [backslash]

theorem inside?_cons (slash : c ≠ '/') (backslash : c ≠ '\\') :
    inside? (c :: rest) = (inside? rest).map fun read => (c :: read.1, read.2) := by
  rw [inside?] <;> simp [slash, backslash]

theorem symbols_cons {part : Part} {rest : List Part} (letter : part ≠ .escaped 'u') :
    symbols (part :: rest) = part.symbol :: symbols rest := by
  rw [symbols] <;> simp [letter]

/-- A character is no backslash if it is neither one by itself nor one before another character. -/
theorem ne_backslash (lone : c = '\\' → rest = [] → False)
    (pair : ∀ d others, c = '\\' → rest = d :: others → False) : c ≠ '\\' := by
  intro backslash
  cases rest with
  | nil => exact lone backslash rfl
  | cons d others => exact pair d others backslash rfl

/-- Only the last part of a pattern can be a backslash by itself. -/
theorem eq_nil_of_parts_eq {pattern : List Char} {before after : List Part}
    (stands : parts pattern = before ++ .plain '\\' :: after) : after = [] := by
  fun_induction parts pattern generalizing before with
  | case1 => simp at stands
  | case2 c rest ih =>
    cases before with
    | nil => simp at stands
    | cons part before => exact ih (List.cons.inj stands).2
  | case3 c rest pair ih =>
    cases before with
    | nil =>
      obtain ⟨lone, rfl⟩ := List.cons.inj stands
      cases rest with
      | nil => rfl
      | cons d rest => exact absurd rfl (pair d rest (Part.plain.inj lone))
    | cons part before => exact ih (List.cons.inj stands).2

/-- A pass appends the escaped pattern to what is written. -/
theorem finish_foldl_step (pattern written : List Char) :
    (pattern.foldl Pass.step ⟨false, written⟩).finish = written ++ escape pattern := by
  fun_induction escape pattern generalizing written with
  | case1 => simp [Pass.finish]
  | case2 => simp [Pass.step, Pass.finish]
  | case3 c rest ih =>
    have taken : Pass.step (Pass.step ⟨false, written⟩ '\\') c =
        ⟨false, written ++ '\\' :: afterBackslash c⟩ := by
      simp [Pass.step]
    rw [List.foldl_cons, List.foldl_cons, taken, ih, List.append_assoc, List.cons_append]
  | case4 c rest lone pair ih =>
    have backslash := ne_backslash lone pair
    rw [List.foldl_cons, Pass.step, if_neg Bool.false_ne_true, if_neg backslash, ih,
      List.append_assoc]

end Equations

section Written

/-- A character that stands for itself inside a literal. -/
def IsOrdinary (c : Char) : Prop := c ≠ '/' ∧ c ≠ '\\' ∧ c ∉ lineTerminators

/-- How a part is written inside a literal. -/
def Part.written : Part → List Char
  | .plain c => if c = '\\' then ['\\', '\\'] else Regex.plain c
  | .escaped c => '\\' :: afterBackslash c

theorem terminator?_of_not_mem {c : Char} (line : c ∉ lineTerminators) : terminator? c = none := by
  simp only [lineTerminators, List.mem_cons, List.not_mem_nil, or_false, not_or] at line
  simp [terminator?, line]

/-- The escape of a line terminator is a letter that digits may follow. -/
theorem exists_escape {c : Char} (line : c ∈ lineTerminators) :
    ∃ d digits, terminator? c = some (d :: digits) ∧ d ∉ lineTerminators ∧
      ∀ digit ∈ digits, IsOrdinary digit := by
  unfold IsOrdinary
  simp only [lineTerminators, List.mem_cons, List.not_mem_nil, or_false] at line
  rcases line with rfl | rfl | rfl | rfl
  · exact ⟨'n', [], rfl, by simp [lineTerminators]⟩
  · exact ⟨'r', [], rfl, by simp [lineTerminators]⟩
  · exact ⟨'u', ['2', '0', '2', '8'], rfl, by simp [lineTerminators]⟩
  · exact ⟨'u', ['2', '0', '2', '9'], rfl, by simp [lineTerminators]⟩

theorem IsOrdinary.plain {c : Char} (ordinary : IsOrdinary c) : Regex.plain c = [c] := by
  rw [Regex.plain, terminator?_of_not_mem ordinary.2.2]
  exact if_neg ordinary.1

theorem afterBackslash_of_not_mem {c : Char} (line : c ∉ lineTerminators) :
    afterBackslash c = [c] := by
  rw [afterBackslash, terminator?_of_not_mem line]
  rfl

/-- A part is an ordinary character, or it is written as a backslash and a character after it, which
ordinary ones may follow. -/
theorem written_cases (part : Part) :
    (∃ c, part = .plain c ∧ IsOrdinary c ∧ part.written = [c]) ∨
      ∃ d rest, d ∉ lineTerminators ∧ (∀ c ∈ rest, IsOrdinary c) ∧
        part.written = '\\' :: d :: rest := by
  cases part with
  | plain c =>
    rw [Part.written]
    by_cases backslash : c = '\\'
    · rw [if_pos backslash]
      exact Or.inr ⟨'\\', [], by decide, by simp, rfl⟩
    · rw [if_neg backslash]
      by_cases line : c ∈ lineTerminators
      · obtain ⟨d, digits, escaped, line, ordinary⟩ := exists_escape line
        rw [Regex.plain, escaped]
        exact Or.inr ⟨d, digits, line, ordinary, rfl⟩
      · by_cases slash : c = '/'
        · subst slash
          exact Or.inr ⟨'/', [], by decide, by simp, rfl⟩
        · have ordinary : IsOrdinary c := ⟨slash, backslash, line⟩
          exact Or.inl ⟨c, rfl, ordinary, ordinary.plain⟩
  | escaped c =>
    rw [Part.written]
    by_cases line : c ∈ lineTerminators
    · obtain ⟨d, digits, escaped, line, ordinary⟩ := exists_escape line
      rw [afterBackslash, escaped]
      exact Or.inr ⟨d, digits, line, ordinary, rfl⟩
    · rw [afterBackslash_of_not_mem line]
      exact Or.inr ⟨c, [], line, by simp, rfl⟩

/-- To escape a pattern is to write each of its parts. -/
theorem escape_eq_flatMap (pattern : List Char) :
    escape pattern = (parts pattern).flatMap Part.written := by
  fun_induction escape pattern with
  | case1 => rfl
  | case2 => rfl
  | case3 c rest ih => simp [parts, Part.written, ih]
  | case4 c rest lone pair ih =>
    have backslash := ne_backslash lone pair
    rw [parts_cons backslash, List.flatMap_cons, Part.written, if_neg backslash, ih]

theorem escape_ordinary {ordinary rest : List Char} (all : ∀ c ∈ ordinary, IsOrdinary c) :
    escape (ordinary ++ rest) = ordinary ++ escape rest := by
  induction ordinary with
  | nil => rfl
  | cons c ordinary ih =>
    obtain ⟨first, all⟩ := List.forall_mem_cons.1 all
    rw [List.cons_append, escape_cons first.2.1, first.plain, ih all]
    rfl

theorem inside?_ordinary {ordinary rest : List Char} (all : ∀ c ∈ ordinary, IsOrdinary c) :
    inside? (ordinary ++ rest) = (inside? rest).map fun read => (ordinary ++ read.1, read.2) := by
  induction ordinary with
  | nil => simp
  | cons c ordinary ih =>
    obtain ⟨first, all⟩ := List.forall_mem_cons.1 all
    rw [List.cons_append, inside?_cons first.1 first.2.1, ih all, Option.map_map]
    rfl

theorem escape_written (part : Part) (rest : List Char) :
    escape (part.written ++ rest) = part.written ++ escape rest := by
  obtain ⟨c, -, ordinary, written⟩ | ⟨d, digits, line, ordinary, written⟩ := written_cases part
  · rw [written]
    exact escape_ordinary (by simpa using ordinary)
  · rw [written, List.cons_append, List.cons_append, escape, afterBackslash_of_not_mem line,
      escape_ordinary ordinary]
    rfl

theorem inside?_written (part : Part) (rest : List Char) :
    inside? (part.written ++ rest) =
      (inside? rest).map fun read => (part.written ++ read.1, read.2) := by
  obtain ⟨c, -, ordinary, written⟩ | ⟨d, digits, -, ordinary, written⟩ := written_cases part
  · rw [written]
    exact inside?_ordinary (by simpa using ordinary)
  · rw [written, List.cons_append, List.cons_append, inside?, inside?_ordinary ordinary,
      Option.map_map]
    rfl

theorem not_mem_written {c : Char} (terminator : c ∈ lineTerminators) (part : Part) :
    c ∉ part.written := by
  have apart {d : Char} (line : d ∉ lineTerminators) : c ≠ d := fun same => line (same ▸ terminator)
  obtain ⟨d, -, ordinary, written⟩ | ⟨d, digits, line, ordinary, written⟩ := written_cases part
  · simp [written, apart ordinary.2.2]
  · rw [written, List.mem_cons, List.mem_cons, not_or, not_or]
    exact ⟨apart (by decide), apart line, fun member => (ordinary c member).2.2 terminator⟩

/-- What follows the closing slash of an escaped pattern is not part of it. -/
theorem inside?_escape (pattern rest : List Char) :
    inside? (escape pattern ++ '/' :: rest) = some (escape pattern, rest) := by
  rw [escape_eq_flatMap]
  induction parts pattern with
  | nil => rfl
  | cons part others ih => rw [List.flatMap_cons, List.append_assoc, inside?_written, ih]; rfl

theorem not_mem_escape {c : Char} (terminator : c ∈ lineTerminators) (pattern : List Char) :
    c ∉ escape pattern := by
  rw [escape_eq_flatMap, List.mem_flatMap]
  rintro ⟨part, -, member⟩
  exact not_mem_written terminator part member

theorem escape_escape (pattern : List Char) : escape (escape pattern) = escape pattern := by
  rw [escape_eq_flatMap pattern]
  induction parts pattern with
  | nil => rfl
  | cons part others ih => rw [List.flatMap_cons, escape_written, ih]

end Written

section Symbols

/-- The parts that a part is written as. -/
def Part.spelled (part : Part) : List Part := parts part.written

theorem parts_ordinary {ordinary rest : List Char} (all : ∀ c ∈ ordinary, IsOrdinary c) :
    parts (ordinary ++ rest) = parts ordinary ++ parts rest := by
  induction ordinary with
  | nil => rfl
  | cons c ordinary ih =>
    obtain ⟨first, all⟩ := List.forall_mem_cons.1 all
    rw [List.cons_append, parts_cons first.2.1, parts_cons first.2.1, ih all]
    rfl

theorem parts_written (part : Part) (rest : List Char) :
    parts (part.written ++ rest) = part.spelled ++ parts rest := by
  unfold Part.spelled
  obtain ⟨c, -, ordinary, written⟩ | ⟨d, digits, -, ordinary, written⟩ := written_cases part
  · rw [written]
    exact parts_ordinary (by simpa using ordinary)
  · rw [written, List.cons_append, List.cons_append, parts, parts, parts_ordinary ordinary]
    rfl

theorem parts_escape (pattern : List Char) :
    parts (escape pattern) = ((parts pattern).map Part.mend).flatMap Part.spelled := by
  have mended (part : Part) : part.mend.spelled = part.spelled := by
    unfold Part.mend
    split <;> rfl
  rw [escape_eq_flatMap, List.flatMap_map]
  simp only [mended]
  induction parts pattern with
  | nil => rfl
  | cons part others ih => rw [List.flatMap_cons, parts_written, ih, List.flatMap_cons]

theorem spelled_of_isOrdinary {c : Char} (ordinary : IsOrdinary c) :
    (Part.plain c).spelled = [.plain c] := by
  rw [Part.spelled, Part.written, if_neg ordinary.2.1, ordinary.plain, parts_cons ordinary.2.1]
  rfl

theorem spelled_escaped {c : Char} (line : c ∉ lineTerminators) :
    (Part.escaped c).spelled = [.escaped c] := by
  rw [Part.spelled, Part.written, afterBackslash_of_not_mem line]
  rfl

/-- A line terminator says the same when it is written as its escape. -/
theorem symbols_terminator {part : Part} {c : Char} (line : c ∈ lineTerminators)
    (written : part.spelled = (Part.escaped c).spelled) (rest : List Part) :
    symbols (part.spelled ++ rest) = .terminator c :: symbols rest := by
  rw [written]
  simp only [lineTerminators, List.mem_cons, List.not_mem_nil, or_false] at line
  rcases line with rfl | rfl | rfl | rfl
  · exact symbols_cons (by decide)
  · exact symbols_cons (by decide)
  · exact symbols.eq_2 rest
  · exact symbols.eq_3 rest

/-- What a part is written as says what the part says. -/
theorem symbols_spelled {part : Part} (whole : part ≠ .plain '\\') (letter : part ≠ .escaped 'u')
    (rest : List Part) : symbols (part.spelled ++ rest) = part.symbol :: symbols rest := by
  cases part with
  | plain c =>
    by_cases line : c ∈ lineTerminators
    · have slash : c ≠ '/' := fun same => absurd (same ▸ line) (by decide)
      have backslash : c ≠ '\\' := fun same => whole (same ▸ rfl)
      have written : (Part.plain c).spelled = (Part.escaped c).spelled := by
        obtain ⟨d, digits, escaped, -⟩ := exists_escape line
        rw [Part.spelled, Part.spelled, Part.written, Part.written, if_neg backslash, Regex.plain,
          afterBackslash, escaped]
        rfl
      rw [symbols_terminator line written, Part.symbol, if_neg slash, if_pos line]
    · by_cases slash : c = '/'
      · subst slash
        exact symbols_cons (by decide)
      · have ordinary : IsOrdinary c := ⟨slash, fun same => whole (same ▸ rfl), line⟩
        rw [spelled_of_isOrdinary ordinary]
        exact symbols_cons (by simp)
  | escaped c =>
    by_cases line : c ∈ lineTerminators
    · have slash : c ≠ '/' := fun same => absurd (same ▸ line) (by decide)
      rw [symbols_terminator line rfl, Part.symbol, if_neg slash, if_pos line]
    · rw [spelled_escaped line]
      exact symbols_cons letter

/-- Only a part that is a character is written as one. -/
theorem cons_of_flatMap_spelled {c : Char} {others tail : List Part}
    (written : others.flatMap Part.spelled = .plain c :: tail) :
    ∃ rest, others = .plain c :: rest ∧ rest.flatMap Part.spelled = tail := by
  cases others with
  | nil => simp at written
  | cons part rest =>
    rw [List.flatMap_cons] at written
    obtain ⟨d, rfl, ordinary, -⟩ | ⟨d, digits, -, -, escaped⟩ := written_cases part
    · rw [spelled_of_isOrdinary ordinary, List.singleton_append] at written
      obtain ⟨same, rfl⟩ := List.cons.inj written
      exact ⟨rest, by rw [same], rfl⟩
    · rw [Part.spelled, escaped, parts, List.cons_append] at written
      exact absurd (List.cons.inj written).1 (by simp)

/-- The code of an escape is written as one only if it stands there already. -/
theorem code_of_flatMap_spelled {c : Char} {others tail : List Part}
    (written : others.flatMap Part.spelled =
      .plain '2' :: .plain '0' :: .plain '2' :: .plain c :: tail) :
    ∃ rest, others = .plain '2' :: .plain '0' :: .plain '2' :: .plain c :: rest := by
  obtain ⟨second, rfl, written₂⟩ := cons_of_flatMap_spelled written
  obtain ⟨third, rfl, written₃⟩ := cons_of_flatMap_spelled written₂
  obtain ⟨fourth, rfl, written₄⟩ := cons_of_flatMap_spelled written₃
  obtain ⟨rest, rfl, -⟩ := cons_of_flatMap_spelled written₄
  exact ⟨rest, rfl⟩

theorem symbols_flatMap_spelled {others : List Part} (whole : .plain '\\' ∉ others) :
    symbols (others.flatMap Part.spelled) = symbols others := by
  fun_induction symbols others with
  | case1 => rfl
  | case2 rest ih =>
    refine (symbols.eq_2 _).trans (congrArg _ (ih ?_))
    exact fun member => whole (by simp [member])
  | case3 rest ih =>
    refine (symbols.eq_3 _).trans (congrArg _ (ih ?_))
    exact fun member => whole (by simp [member])
  | case4 part rest other other' ih =>
    rw [List.mem_cons, not_or] at whole
    rw [List.flatMap_cons]
    by_cases letter : part = .escaped 'u'
    · -- The letter is written as itself. It would begin a code only with digits that stood there.
      subst letter
      rw [spelled_escaped (by decide), List.singleton_append, symbols, ih whole.2]
      · intro tail _ written
        obtain ⟨rest, rfl⟩ := code_of_flatMap_spelled written
        exact other rest rfl rfl
      · intro tail _ written
        obtain ⟨rest, rfl⟩ := code_of_flatMap_spelled written
        exact other' rest rfl rfl
    · rw [symbols_spelled (Ne.symm whole.1) letter, ih whole.2]

end Symbols

/-- A pattern that is escaped in one pass cannot break out of its literal and means the same in it.
The literal ends at the slash that is put after the pattern, whatever follows, and stays on its line;
to escape it again changes nothing; and it says what the pattern says, save that a backslash by
itself, which only the last part can be, is taken for an escaped one. -/
theorem escaped_pattern_stays_inside (pattern : List Char) :
    (pattern.foldl Pass.step ⟨false, []⟩).finish = escape pattern ∧
      (∀ rest, literal? ('/' :: escape pattern ++ '/' :: rest) = some (escape pattern, rest)) ∧
      (∀ c ∈ lineTerminators, c ∉ '/' :: escape pattern ++ ['/']) ∧
      escape (escape pattern) = escape pattern ∧
      symbols (parts (escape pattern)) = symbols ((parts pattern).map Part.mend) ∧
      ∀ before after, parts pattern = before ++ .plain '\\' :: after → after = [] := by
  have slash : '/' ∉ lineTerminators := by decide
  have whole : .plain '\\' ∉ (parts pattern).map Part.mend := by
    rw [List.mem_map]
    rintro ⟨part, -, mended⟩
    unfold Part.mend at mended
    split at mended
    · cases mended
    · contradiction
  refine ⟨finish_foldl_step pattern [], inside?_escape pattern, ?_, escape_escape pattern, ?_,
    fun _ _ => eq_nil_of_parts_eq⟩
  · intro c terminator
    have apart : c ≠ '/' := fun same => slash (same ▸ terminator)
    simp [apart, not_mem_escape terminator pattern]
  · rw [parts_escape]
    exact symbols_flatMap_spelled whole

/-- A pattern with each kind of danger: a raw slash, an escaped backslash before a slash, a line
terminator after a backslash and a backslash at its end. -/
example : escape ['a', '/', '\\', '\\', '/', '\\', '\u2028', '\\'] =
    ['a', '\\', '/', '\\', '\\', '\\', '/', '\\', 'u', '2', '0', '2', '8', '\\', '\\'] := rfl

end ZodModules.Regex
