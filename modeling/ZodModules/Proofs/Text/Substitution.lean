import ZodModules.Proofs.Text.Boundaries
import ZodModules.Data.NameMap
import Mathlib.Data.List.Chain

/-!
# Renaming as a substitution

A code that is written as a sequence of tokens is read as just these tokens: the scanner finds the
end of each string literal, whatever backslashes and quotes its text holds, and the end of each
word. So renaming replaces the words that have a new name, all at once, and nothing else.
-/

namespace ZodModules.Code

/-- What code is written with. -/
inductive Token where
  /-- A run of identifier characters. -/
  | word (text : List Char) (nonempty : text ≠ []) (letters : ∀ c ∈ text, isWordChar c)
  /-- The literal of a string. -/
  | literal (value : String)
  /-- A character outside of words and literals. -/
  | other (char : Char) (quote : ¬ isQuote char) (letter : ¬ isWordChar char)

namespace Token

/-- How a token is written. -/
def text : Token → List Char
  | word text _ _ => text
  | literal value => (quote value).toList
  | other char _ _ => [char]

/-- The piece as which a token is to be read. -/
def piece : Token → Piece
  | word text _ _ => .word text
  | literal value => .literal (quote value).toList
  | other char _ _ => .other char

/-- Whether a token is a word. -/
def isWord : Token → Bool
  | word _ _ _ => true
  | _ => false

/-- A token after a substitution: a word that begins with no digit and has a new name becomes it. -/
def substitute (renames : NameMap String) : Token → List Char
  | word text _ _ =>
    if text.head?.any Char.isDigit then text
    else ((renames.get? (String.ofList text)).map String.toList).getD text
  | token => token.text

end Token

/-- Each word is as long as it can be: no other one follows it directly. -/
def Maximal (tokens : List Token) : Prop :=
  tokens.IsChain fun first second => ¬ (first.isWord ∧ second.isWord)

/-- The code that some tokens make up. -/
def textOf (tokens : List Token) : List Char := tokens.flatMap Token.text

section Reading

variable {tokens : List Token} {text : List Char}

/-- A word ends where a text begins that it cannot go on into. -/
theorem piecesFrom_word (read : List Char) (stops : text = [] ∨ Breaks text) :
    piecesFrom (.word read) text = .word read.reverse :: piecesFrom .nothing text := by
  rcases stops with rfl | ⟨c, rest, rfl, other⟩
  · rfl
  · rw [piecesFrom_cons, piecesFrom_cons, step_word_of_not read other]
    rfl

/-- The text of a token that is no word does not go on with one before it. -/
theorem Token.breaks {token : Token} (other : ¬ token.isWord) (rest : List Char) :
    Breaks (token.text ++ rest) := by
  cases token with
  | word text nonempty letters => exact absurd rfl other
  | literal value =>
    refine ⟨'"', value.toList.flatMap Quoted.escape ++ ['"'] ++ rest, ?_, by decide⟩
    rw [Token.text, quote, String.toList_ofList]
    rfl
  | other char quote letter => exact ⟨char, rest, rfl, letter⟩

/-- What follows a word begins with something else. -/
theorem Maximal.stops {token : Token} (maximal : Maximal (token :: tokens))
    (word : token.isWord) : textOf tokens = [] ∨ Breaks (textOf tokens) := by
  cases tokens with
  | nil => exact .inl rfl
  | cons next rest =>
    have other : ¬ next.isWord := fun again => (List.isChain_cons_cons.1 maximal).1 ⟨word, again⟩
    exact .inr (Token.breaks other (textOf rest))

/-- A code is read as the tokens that it is written with. -/
theorem pieces_textOf (maximal : Maximal tokens) :
    pieces (textOf tokens) = tokens.map Token.piece := by
  induction tokens with
  | nil => rfl
  | cons token rest ih =>
    have later : piecesFrom .nothing (textOf rest) = rest.map Token.piece :=
      ih (List.IsChain.tail maximal)
    show piecesFrom .nothing (token.text ++ textOf rest) = token.piece :: rest.map Token.piece
    rw [piecesFrom_append, ← later]
    cases token with
    | word text nonempty letters =>
      rw [Token.text, scan_letters nonempty letters, piecesFrom_word _ (maximal.stops rfl),
        List.reverse_reverse]
      rfl
    | literal value =>
      rw [Token.text, Token.piece, quote, String.toList_ofList, scan_quoted]
      rfl
    | other char quote letter =>
      have read : scan .nothing [char] = (.nothing, [.other char]) := by
        rw [scan, step, start, if_neg quote, if_neg letter]
        rfl
      rw [Token.text, read]
      rfl

theorem Token.rename_piece (renames : NameMap String) (token : Token) :
    token.piece.rename renames.get? = token.substitute renames := by
  cases token with
  | word text nonempty letters =>
    rw [Token.piece, Piece.rename, Token.substitute]
    split
    · rfl
    · cases renames.get? (String.ofList text) <;> rfl
  | literal value => rfl
  | other char quote letter => rfl

end Reading

/-- Renaming is a simultaneous substitution on tokens. A code is read as the tokens that it is
written with, and comes out as the same sequence in which the words with a new name that begin with
no digit are replaced: literals stay, no new name is renamed again, and no part of a longer word is
touched. -/
theorem rename_substitutes (renames : NameMap String) {tokens : List Token}
    (maximal : Maximal tokens) :
    pieces (textOf tokens) = tokens.map Token.piece ∧
      rename renames.get? (String.ofList (textOf tokens)) =
        String.ofList (tokens.flatMap (Token.substitute renames)) := by
  have read := pieces_textOf maximal
  refine ⟨read, ?_⟩
  rw [rename, String.toList_ofList, read, List.flatMap_map]
  exact congrArg String.ofList (congrFun (congrArg _ (funext (Token.rename_piece renames))) tokens)

/-- Two names that are swapped. -/
def swaps : NameMap String := NameMap.ofList [("left", "right"), ("right", "left")]

/-- Code with both names, with a string whose quote and backslash could be mistaken for its end, and
with a longer name. -/
def swapping : List Token :=
  [.word "left".toList (by decide) (List.all_eq_true.1 rfl), .other '(' (by decide) (by decide),
    .literal "left\"right\\", .word "right".toList (by decide) (List.all_eq_true.1 rfl),
    .other ')' (by decide) (by decide), .word "leftmost".toList (by decide) (List.all_eq_true.1 rfl)]

theorem names_swap :
    Maximal swapping ∧
      textOf swapping = "left(\"left\\\"right\\\\\"right)leftmost".toList ∧
      rename swaps.get? (String.ofList (textOf swapping)) =
        "right(\"left\\\"right\\\\\"left)leftmost" := by
  have maximal : Maximal swapping := by
    unfold Maximal swapping
    decide
  refine ⟨maximal, by decide +kernel, ?_⟩
  rw [(rename_substitutes swaps maximal).2]
  decide +kernel

end ZodModules.Code
