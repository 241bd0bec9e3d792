import ZodModules.Yaml.Token

/-!
# Reading tokens

A stream is read token by token. Indentation opens and closes block collections. Where a token could
turn out to be a key, its place is remembered until a colon follows on the same line, or until that
is no longer possible.
-/

namespace ZodModules.Yaml

/-- The place of a token that may turn out to be a key. -/
structure Candidate where
  /-- Whether a colon has to follow, as no other key could stand at this column. -/
  required : Bool
  /-- The number of tokens before it. -/
  tokenCount : Nat
  line : Nat
  column : Nat
  offset : Nat

/-- The state between two tokens. -/
structure Scanner where
  cursor : Cursor
  /-- The tokens read, last one first. -/
  tokens : List Token := []
  tokenCount : Nat := 0
  /-- The number of open flow collections. -/
  flowLevel : Nat := 0
  /-- The column of the innermost block collection, -1 outside of all. -/
  indent : Int := -1
  /-- The columns of the block collections around it, innermost first. -/
  outerIndents : List Int := []
  /-- Whether a key without mark may begin here. -/
  keyAllowed : Bool := true
  /-- The candidate outside of flow collections and in each of them, innermost first. -/
  candidates : List (Option Candidate) := [none]

namespace Scanner

/-- Whether a flow collection is open. -/
def inFlow (s : Scanner) : Bool := s.flowLevel != 0

/-- Adds a token. -/
def emit (s : Scanner) (token : Token) : Scanner :=
  { s with tokens := token :: s.tokens, tokenCount := s.tokenCount + 1 }

/-- Adds a token before those that follow the first `count`. -/
def insert (s : Scanner) (count : Nat) (token : Token) : Scanner :=
  let newer := s.tokenCount - count
  { s with
    tokens := s.tokens.take newer ++ token :: s.tokens.drop newer
    tokenCount := s.tokenCount + 1 }

/-- The candidate of the innermost collection. -/
def candidate? (s : Scanner) : Option Candidate := s.candidates.head?.join

/-- Sets the candidate of the innermost collection. -/
def setCandidate (s : Scanner) (candidate : Option Candidate) : Scanner :=
  { s with candidates := candidate :: s.candidates.drop 1 }

/-- Gives up the candidate of the innermost collection; `none` if a colon had to follow it. -/
def dropCandidate? (s : Scanner) : Option Scanner :=
  if s.candidate?.any (·.required) then none else some (s.setCandidate none)

/-- Makes the token that comes next a candidate, if a key may begin here. -/
def saveCandidate? (s : Scanner) : Option Scanner :=
  if s.keyAllowed then
    s.dropCandidate?.map fun s => s.setCandidate (some {
      required := !s.inFlow && s.indent == (s.cursor.column : Int)
      tokenCount := s.tokenCount
      line := s.cursor.line
      column := s.cursor.column
      offset := s.cursor.offset })
  else some s

/-- Whether a colon may still follow a candidate: on its line and at most 1024 bytes further on. -/
def isAlive (s : Scanner) (candidate : Candidate) : Bool :=
  s.cursor.line ≤ candidate.line && s.cursor.offset ≤ candidate.offset + 1024

/-- Gives up the candidates that no colon can follow any more. -/
def dropStale? (s : Scanner) : Option Scanner :=
  let isStale (candidate : Option Candidate) : Bool := candidate.any (!s.isAlive ·)
  if s.candidates.any fun c => isStale c && c.any (·.required) then none
  else some { s with candidates := s.candidates.map fun c => if isStale c then none else c }

/-- Opens a block collection at a column, unless it stands right of the open one. Its token comes
before those that follow the first `count`. -/
def rollIndent (s : Scanner) (column : Nat) (count : Nat) (token : Token) : Scanner :=
  if s.inFlow || (column : Int) ≤ s.indent then s
  else
    { s with indent := column, outerIndents := s.indent :: s.outerIndents }.insert count token

/-- Closes the block collections right of a column. -/
def unrollIndent (s : Scanner) (column : Int) : Scanner :=
  if s.inFlow then s
  else
    let columns := s.indent :: s.outerIndents
    let closed := columns.takeWhile (column < ·)
    let open? := columns.dropWhile (column < ·)
    { s with
      tokens := closed.map (fun _ => Token.blockEnd) ++ s.tokens
      tokenCount := s.tokenCount + closed.length
      indent := open?.head?.getD (-1)
      outerIndents := open?.drop 1 }

/-- Moves to the next token, over blanks, comments and line breaks. A byte order mark at the start of
a line counts as a blank. Tabs may not stand where a key may begin outside of flow collections. -/
def skipToToken : Nat → Scanner → Scanner
  | 0, s => s
  | fuel + 1, s =>
    let cursor := if s.cursor.column = 0 ∧ s.cursor.at? '\ufeff' then s.cursor.next else s.cursor
    let cursor := cursor.skipWhile fun c => c == ' ' || ((s.inFlow || !s.keyAllowed) && c == '\t')
    let cursor := cursor.skipComment
    if cursor.atBreak then
      skipToToken fuel { s with
        cursor := cursor.readBreak.2
        keyAllowed := s.keyAllowed || !s.inFlow }
    else { s with cursor := cursor }

/-- Adds a token that is a mark of some characters. -/
def mark (s : Scanner) (length : Nat) (token : Token) : Scanner :=
  { s with cursor := s.cursor.skip length }.emit token

/-- Reads a directive. -/
def directive? (s : Scanner) : Option Scanner := do
  let s ← (s.unrollIndent (-1)).dropCandidate?
  let (token, cursor) ← Token.directive? s.cursor
  return { s with cursor := cursor, keyAllowed := false }.emit token

/-- Reads the mark between documents. -/
def documentMark? (s : Scanner) (token : Token) : Option Scanner := do
  let s ← (s.unrollIndent (-1)).dropCandidate?
  return { s with keyAllowed := false }.mark 3 token

/-- Reads the start of a flow collection. -/
def flowStart? (s : Scanner) (token : Token) : Option Scanner := do
  let s ← s.saveCandidate?
  return { s with
    candidates := none :: s.candidates
    flowLevel := s.flowLevel + 1
    keyAllowed := true }.mark 1 token

/-- Reads the end of a flow collection. -/
def flowEnd? (s : Scanner) (token : Token) : Option Scanner := do
  let s ← s.dropCandidate?
  let s :=
    if s.inFlow then { s with candidates := s.candidates.drop 1, flowLevel := s.flowLevel - 1 }
    else s
  return { s with keyAllowed := false }.mark 1 token

/-- Reads the mark between the entries of a flow collection. -/
def flowEntry? (s : Scanner) : Option Scanner := do
  let s ← s.dropCandidate?
  return { s with keyAllowed := true }.mark 1 .flowEntry

/-- Reads the mark before an entry of a block sequence. -/
def blockEntry? (s : Scanner) : Option Scanner := do
  if !s.inFlow && !s.keyAllowed then none
  else
    let s ← (s.rollIndent s.cursor.column s.tokenCount .blockSequenceStart).dropCandidate?
    return { s with keyAllowed := true }.mark 1 .blockEntry

/-- Reads the mark before a key. -/
def key? (s : Scanner) : Option Scanner := do
  if !s.inFlow && !s.keyAllowed then none
  else
    let s ← (s.rollIndent s.cursor.column s.tokenCount .blockMappingStart).dropCandidate?
    return { s with keyAllowed := !s.inFlow }.mark 1 .key

/-- Reads the colon before a value. If there is a candidate it is the key. -/
def value? (s : Scanner) : Option Scanner :=
  match s.candidate? with
  | some candidate =>
    let s := s.insert candidate.tokenCount .key
    let s := s.rollIndent candidate.column candidate.tokenCount .blockMappingStart
    some ({ s.setCandidate none with keyAllowed := false }.mark 1 .value)
  | none =>
    if !s.inFlow && !s.keyAllowed then none
    else
      let s := s.rollIndent s.cursor.column s.tokenCount .blockMappingStart
      some ({ s with keyAllowed := !s.inFlow }.mark 1 .value)

/-- Reads an anchor or an alias. -/
def anchor? (s : Scanner) (token : String → Token) : Option Scanner := do
  let s ← s.saveCandidate?
  let (name, cursor) ← Token.anchorName? s.cursor.next
  return { s with cursor := cursor, keyAllowed := false }.emit (token name)

/-- Reads a tag. -/
def tag? (s : Scanner) : Option Scanner := do
  let s ← s.saveCandidate?
  let (token, cursor) ← Token.tag? s.inFlow s.cursor
  return { s with cursor := cursor, keyAllowed := false }.emit token

/-- Reads a block scalar. -/
def blockScalar? (s : Scanner) (folded : Bool) : Option Scanner := do
  let s ← s.dropCandidate?
  let (text, cursor) ← Yaml.block? folded s.indent s.cursor.next
  return { s with cursor := cursor, keyAllowed := true }.emit (.scalar text false)

/-- Reads a quoted scalar. -/
def quotedScalar? (s : Scanner) : Option Scanner := do
  let s ← s.saveCandidate?
  let (text, cursor) ← Yaml.quoted? s.cursor
  return { s with cursor := cursor, keyAllowed := false }.emit (.scalar text false)

/-- Reads a plain scalar. A key may begin after one that ends with line breaks. -/
def plainScalar? (s : Scanner) : Option Scanner := do
  let s ← s.saveCandidate?
  let (text, cursor, broken) ← Yaml.plain? s.inFlow (s.indent + 1) s.cursor
  return { s with cursor := cursor, keyAllowed := broken }.emit (.scalar text true)

/-- The characters with a meaning of their own, with which a plain scalar does not begin. -/
def isIndicator (c : Char) : Bool :=
  ['-', '?', ':', ',', '[', ']', '{', '}', '#', '&', '*', '!', '|', '>', '\'', '"', '%', '@',
    '\x60'].contains c

/-- Whether a plain scalar begins here. -/
def beginsPlain (s : Scanner) (c : Char) : Bool :=
  let next := s.cursor.peek? 1
  !(endsWord (some c) || isIndicator c) ||
    (c == '-' && !next.any isBlank) ||
    (!s.inFlow && (c == '?' || c == ':') && !endsWord next)

/-- Reads the token that begins with a character. -/
def token? (s : Scanner) (c : Char) : Option Scanner :=
  let stands := s.inFlow || endsWord (s.cursor.peek? 1)
  if s.cursor.column = 0 ∧ c = '%' then s.directive?
  else if s.cursor.atMark '-' then s.documentMark? .documentStart
  else if s.cursor.atMark '.' then s.documentMark? .documentEnd
  else if c = '[' then s.flowStart? .flowSequenceStart
  else if c = '{' then s.flowStart? .flowMappingStart
  else if c = ']' then s.flowEnd? .flowSequenceEnd
  else if c = '}' then s.flowEnd? .flowMappingEnd
  else if c = ',' then s.flowEntry?
  else if c = '-' ∧ endsWord (s.cursor.peek? 1) then s.blockEntry?
  else if c = '?' ∧ stands then s.key?
  else if c = ':' ∧ stands then s.value?
  else if c = '*' then s.anchor? .alias
  else if c = '&' then s.anchor? .anchor
  else if c = '!' then s.tag?
  else if c = '|' ∧ !s.inFlow then s.blockScalar? false
  else if c = '>' ∧ !s.inFlow then s.blockScalar? true
  else if c = '\'' ∨ c = '"' then s.quotedScalar?
  else if s.beginsPlain c then s.plainScalar?
  else none

/-- Reads all tokens. At the end of the text every block collection is closed. -/
def run? : Nat → Scanner → Option Scanner
  | 0, _ => none
  | fuel + 1, s =>
    match (skipToToken (fuel + 1) s).dropStale? with
    | none => none
    | some s =>
      let s := s.unrollIndent s.cursor.column
      match s.cursor.head? with
      | none => (s.unrollIndent (-1)).dropCandidate?
      | some c => (s.token? c).bind (run? fuel)

end Scanner

/-- The tokens of a stream. -/
def tokens? (text : String) : Option (List Token) :=
  let chars := text.toList
  if chars.all isPrintable then
    (Scanner.run? (chars.length + 1) { cursor := { rest := chars } }).map fun s => s.tokens.reverse
  else none

end ZodModules.Yaml
