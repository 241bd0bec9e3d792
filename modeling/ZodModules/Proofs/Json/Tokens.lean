import ZodModules.Proofs.Json.Numbers

/-!
# Tokens and their texts

A text that begins with that of a token is read as the token and what the rest is read as, where a
literal or a number ends if what follows cannot belong to it.
-/

namespace ZodModules.Json

open Text Decimal

namespace Token

variable {rest : List Char}

theorem isWordChar_of_isDigit {c : Char} (digit : c.isDigit) : isWordChar c := by
  unfold isWordChar
  rw [isAlphanum_of_isDigit digit]
  rfl

theorem isWordChar_of_splitSign {text : List Char}
    (all : ∀ c ∈ (splitSign text).2, isWordChar c) : ∀ c ∈ text, isWordChar c := by
  unfold splitSign at all
  split at all
  · exact List.forall_mem_cons.2 ⟨rfl, all⟩
  · exact List.forall_mem_cons.2 ⟨rfl, all⟩
  · exact all

theorem isWordChar_of_exponent? {tail : List Char} {power : ℤ}
    (reads : exponent? tail = some power) : ∀ c ∈ tail, isWordChar c := by
  cases tail with
  | nil => exact List.forall_mem_nil _
  | cons mark rest =>
    have marks := head?_of_exponent? reads mark rfl
    have letter : isWordChar mark := by
      rcases marks with rfl | rfl <;> rfl
    refine List.forall_mem_cons.2 ⟨letter, isWordChar_of_splitSign ?_⟩
    rw [exponent?, if_pos marks] at reads
    dsimp only at reads
    split at reads
    · rename_i digits found
      obtain ⟨same, all⟩ := eq_of_digits? found
      rw [same, List.append_nil]
      exact fun c member => isWordChar_of_isDigit (all c member)
    · cases reads

theorem isWordChar_numeral (numeral : Numeral) : ∀ c ∈ numeral.text, isWordChar c := by
  have whole := numeral.digits
  have decimals := numeral.fraction
  have tail := isWordChar_of_exponent? numeral.reads
  intro c member
  rw [Numeral.text, List.mem_append, List.mem_append] at member
  rcases member with (first | point) | last
  · exact isWordChar_of_isDigit (whole c first)
  · split at point
    · cases point
    · rcases List.mem_cons.1 point with rfl | inside
      · rfl
      · exact isWordChar_of_isDigit (decimals c inside)
  · exact tail c last

/-- A number is written with characters of words only. -/
theorem isWordChar_text (number : Number) : ∀ c ∈ number.text.toList, isWordChar c := by
  have digits (k : Nat) : ∀ c ∈ (toString k).toList, isWordChar c := by
    rw [Nat.toString_eq_ofList_toDigits, String.toList_ofList]
    exact fun c member => isWordChar_of_isDigit (isDigits_toDigits k c member)
  cases number with
  | integer n =>
    cases n with
    | ofNat k => exact digits k
    | negSucc k =>
      show ∀ c ∈ ("-" ++ toString (k + 1)).toList, isWordChar c
      rw [String.toList_append]
      exact List.forall_mem_append.2 ⟨by simp [isWordChar], digits (k + 1)⟩
  | float x =>
    obtain ⟨numeral, -, text⟩ := Number.exists_print x
    rw [Number.text, text]
    refine List.forall_mem_append.2 ⟨?_, isWordChar_numeral numeral⟩
    cases x.negative <;> simp [isWordChar]

/-- What a word stops at. -/
def Breaks (rest : List Char) : Prop := ∀ c ∈ rest.head?, ¬ isWordChar c

theorem start?_of_isWordChar {c : Char} (letter : isWordChar c) :
    start? c = some (.word [c], []) := by
  have other {mark : Char} (outside : isWordChar mark = false) : c ≠ mark := by
    rintro rfl
    rw [outside] at letter
    cases letter
  unfold start?
  rw [if_neg (other rfl), if_neg (other rfl), if_neg (other rfl), if_neg (other rfl),
    if_neg (other rfl), if_neg (other rfl), if_neg (other rfl), if_pos letter]

theorem scan_letters {letters read : List Char} (all : ∀ c ∈ letters, isWordChar c) :
    scan (.word read) (letters ++ rest) = scan (.word (letters.reverse ++ read)) rest := by
  induction letters generalizing read with
  | nil => rfl
  | cons c letters ih =>
    obtain ⟨letter, all⟩ := List.forall_mem_cons.1 all
    rw [List.cons_append, scan, if_pos letter, ih all, List.reverse_cons, List.append_assoc]
    rfl

/-- A word is read up to where it stops. -/
theorem scan_word {word : List Char} {token : Token} (nonempty : word ≠ [])
    (all : ∀ c ∈ word, isWordChar c) (reads : ofWord? word = some token) (breaks : Breaks rest) :
    scan .nothing (word ++ rest) = (scan .nothing rest).map (token :: ·) := by
  obtain ⟨c, letters, rfl⟩ := List.exists_cons_of_ne_nil nonempty
  obtain ⟨letter, all⟩ := List.forall_mem_cons.1 all
  have reversed : (letters.reverse ++ [c]).reverse = c :: letters := by simp
  rw [List.cons_append, scan, start?_of_isWordChar letter]
  dsimp only
  rw [scan_letters all]
  cases rest with
  | nil =>
    rw [scan, scan, reversed, reads]
    rfl
  | cons next rest =>
    rw [scan, scan, if_neg (breaks next rfl), reversed, reads]
    cases start? next with
    | none => rfl
    | some begun =>
      obtain ⟨pending, tokens⟩ := begun
      simp [Option.map_map, Function.comp_def]

/-- The written form of a character is read as the character. -/
theorem scan_escape (c : Char) (read : List Char) :
    scan (.string read) (Quoted.escape c ++ rest) = scan (.string (c :: read)) rest := by
  have letter (mark char : Char) (other : mark ≠ 'u') (means : simpleEscape? mark = some char) :
      scan (.string read) (['\\', mark] ++ rest) = scan (.string (char :: read)) rest := by
    rw [List.cons_append, List.singleton_append, scan]
    · rw [means]
    · intro a b c' d rest' same
      cases same
      exact absurd rfl other
  have coded : ∀ code < 32, Text.digitsValue? 16
      ['0', '0', Quoted.hexDigit (code / 16), Quoted.hexDigit (code % 16)] = some code := by decide
  unfold Quoted.escape
  split_ifs with quote backslash feed carriage tab back form control
  · exact quote ▸ letter '"' '"' (by decide) rfl
  · exact backslash ▸ letter '\\' '\\' (by decide) rfl
  · exact feed ▸ letter 'n' '\n' (by decide) rfl
  · exact carriage ▸ letter 'r' '\r' (by decide) rfl
  · exact tab ▸ letter 't' '\t' (by decide) rfl
  · exact back ▸ letter 'b' '\x08' (by decide) rfl
  · exact form ▸ letter 'f' '\x0c' (by decide) rfl
  · show scan (.string read) ('\\' :: 'u' :: '0' :: '0' :: _ :: _ :: rest) = _
    rw [scan, coded c.toNat control]
    dsimp only
    rw [if_neg (by omega), if_neg (by omega), Char.ofNat_toNat]
  · rw [List.singleton_append, scan, if_neg (not_or.2 ⟨control, backslash⟩)]
    · exact quote
    · exact fun _ _ _ _ _ same _ => backslash same
    · exact fun _ _ same _ => backslash same

theorem scan_escaped (text read : List Char) :
    scan (.string read) (text.flatMap Quoted.escape ++ rest) =
      scan (.string (text.reverse ++ read)) rest := by
  induction text generalizing read with
  | nil => rfl
  | cons c text ih =>
    rw [List.flatMap_cons, List.append_assoc, scan_escape, ih, List.reverse_cons, List.append_assoc]
    rfl

/-- A quoted text is read as the text. -/
theorem scan_quoted (text : List Char) :
    scan .nothing (Quoted.chars text ++ rest) =
      (scan .nothing rest).map (.string (String.ofList text) :: ·) := by
  have quoted : Quoted.chars text ++ rest = '"' :: (text.flatMap Quoted.escape ++ '"' :: rest) := by
    simp [Quoted.chars]
  rw [quoted, scan, show start? '"' = some (.string [], []) from rfl]
  dsimp only
  rw [scan_escaped, scan, List.append_nil, List.reverse_reverse, Option.map_map]
  rfl

/-- Whether a token is a literal or a number, which what follows could prolong. -/
def IsWord : Token → Prop
  | .null | .bool _ | .number _ => True
  | _ => False

/-- A token that reads back: an integer keeps its exact value. -/
def IsExact : Token → Prop
  | .number (.integer n) => Number.isExact n
  | _ => True

theorem scan_mark (mark : Char) {token : Token} (starts : start? mark = some (.nothing, [token])) :
    scan .nothing (mark :: rest) = (scan .nothing rest).map (token :: ·) := by
  rw [scan, starts]
  rfl

theorem ofWord?_number {word : List Char} {number : Number}
    (reads : Number.ofChars? word = some number) : ofWord? word = some (.number number) := by
  have other {literal : List Char} (refused : Number.ofChars? literal = none) : word ≠ literal := by
    rintro rfl
    rw [refused] at reads
    cases reads
  unfold ofWord?
  rw [if_neg (other rfl), if_neg (other rfl), if_neg (other rfl), reads]
  rfl

/-- A text that begins with that of a token is read as the token and what the rest is read as. -/
theorem scan_token {token : Token} (exactToken : token.IsExact)
    (breaks : token.IsWord → Breaks rest) :
    scan .nothing (token.text.toList ++ rest) = (scan .nothing rest).map (token :: ·) := by
  cases token with
  | openArray => exact scan_mark '[' rfl
  | closeArray => exact scan_mark ']' rfl
  | openObject => exact scan_mark '{' rfl
  | closeObject => exact scan_mark '}' rfl
  | comma => exact scan_mark ',' rfl
  | colon => exact scan_mark ':' rfl
  | null => exact scan_word (by simp [text]) (by simp [text, isWordChar]) rfl (breaks trivial)
  | bool value =>
    cases value
    · exact scan_word (by simp [text]) (by simp [text, isWordChar]) rfl (breaks trivial)
    · exact scan_word (by simp [text]) (by simp [text, isWordChar]) rfl (breaks trivial)
  | number number =>
    have reads := Number.ofChars?_text number (by rintro n rfl; exact exactToken)
    refine scan_word ?_ (isWordChar_text number) (ofWord?_number reads) (breaks trivial)
    intro empty
    rw [show number.text.toList = [] from empty] at reads
    cases reads
  | string value =>
    rw [text, quote, String.toList_ofList, scan_quoted, String.ofList_toList]

theorem isExact_of_ofWord? {word : List Char} {token : Token} (read : ofWord? word = some token) :
    token.IsExact := by
  unfold ofWord? at read
  split at read
  · cases read
    trivial
  · split at read
    · cases read
      trivial
    · split at read
      · cases read
        trivial
      · obtain ⟨n, found, rfl⟩ := Option.map_eq_some_iff.1 read
        cases n with
        | integer n => exact Number.isExact_of_ofChars? found
        | float x => trivial

theorem isExact_of_start? {c : Char} {pending : Pending} {tokens : List Token}
    (starts : start? c = some (pending, tokens)) : ∀ token ∈ tokens, token.IsExact := by
  unfold start? at starts
  repeat' split at starts
  all_goals cases starts
  all_goals simp [IsExact]

/-- The integers among the tokens of a text keep their exact values. -/
theorem isExact_of_scan {pending : Pending} {text : List Char} {tokens : List Token}
    (read : scan pending text = some tokens) : ∀ token ∈ tokens, token.IsExact := by
  fun_induction scan pending text generalizing tokens with
  | case1 =>
    cases read
    exact List.forall_mem_nil _
  | case2 =>
    obtain ⟨token, found, rfl⟩ := Option.map_eq_some_iff.1 read
    exact List.forall_mem_singleton.2 (isExact_of_ofWord? found)
  | case4 _ _ _ _ starts ih =>
    obtain ⟨others, later, rfl⟩ := Option.map_eq_some_iff.1 read
    exact List.forall_mem_append.2 ⟨isExact_of_start? starts, ih later⟩
  | case7 _ _ _ _ _ _ _ starts found ih =>
    obtain ⟨others, later, rfl⟩ := Option.map_eq_some_iff.1 read
    exact List.forall_mem_cons.2 ⟨isExact_of_ofWord? found,
      List.forall_mem_append.2 ⟨isExact_of_start? starts, ih later⟩⟩
  | case9 _ _ ih =>
    obtain ⟨others, later, rfl⟩ := Option.map_eq_some_iff.1 read
    exact List.forall_mem_cons.2 ⟨trivial, ih later⟩
  -- A word or a string goes on.
  | case6 | case11 | case15 | case16 | case19 =>
    rename_i ih
    exact ih read
  | _ => cases read

end Token

end ZodModules.Json
