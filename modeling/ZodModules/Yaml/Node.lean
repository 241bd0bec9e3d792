import ZodModules.Yaml.Scanner

/-!
# Nodes of a YAML document

The tree that the tokens of a stream stand for. The stream holds one document at most. An anchor
takes a slot, an alias stands for the node in the slot of its anchor.
-/

namespace ZodModules.Yaml

/-- What may precede the content of a node. -/
structure Properties where
  /-- The slot of the node's anchor. -/
  slot : Option Nat := none
  tag : Option TagText := none
deriving DecidableEq

/-- A node of a document. -/
inductive Node where
  | alias (slot : Nat)
  | scalar (properties : Properties) (text : String) (plain : Bool)
  | sequence (properties : Properties) (items : List Node)
  | mapping (properties : Properties) (entries : List (Node × Node))

namespace Node

/-- The node where there is nothing. -/
def empty : Node := .scalar {} "" true

instance : Inhabited Node := ⟨empty⟩

mutual

/-- The number of aliases, scalars, and starts and ends of collections in a node. -/
def size : Node → Nat
  | .alias _ | .scalar .. => 1
  | .sequence _ items => 2 + sizeItems items
  | .mapping _ entries => 2 + sizeEntries entries

/-- The size of some items. -/
def sizeItems : List Node → Nat
  | [] => 0
  | item :: rest => item.size + sizeItems rest

/-- The size of some entries. -/
def sizeEntries : List (Node × Node) → Nat
  | [] => 0
  | (key, value) :: rest => key.size + value.size + sizeEntries rest

end

/-- A node in its slot, if it has one. -/
def slotted (node : Node) (properties : Properties) : List (Nat × Node) :=
  (properties.slot.map fun slot => (slot, node)).toList

mutual

/-- The nodes with an anchor and their slots, each before those inside it. -/
def anchored : Node → List (Nat × Node)
  | .alias _ => []
  | .scalar properties text plain => slotted (.scalar properties text plain) properties
  | .sequence properties items =>
    slotted (.sequence properties items) properties ++ anchoredItems items
  | .mapping properties entries =>
    slotted (.mapping properties entries) properties ++ anchoredEntries entries

/-- The nodes with an anchor in some items. -/
def anchoredItems : List Node → List (Nat × Node)
  | [] => []
  | item :: rest => item.anchored ++ anchoredItems rest

/-- The nodes with an anchor in some entries. -/
def anchoredEntries : List (Node × Node) → List (Nat × Node)
  | [] => []
  | (key, value) :: rest => key.anchored ++ value.anchored ++ anchoredEntries rest

end

end Node

/-! ## Reading tokens -/

/-- What remains of the tokens, and the slots of the anchors so far. -/
structure Reading where
  rest : List Token
  slots : List (String × Nat) := []

/-- A reader of tokens, which may refuse them. -/
abbrev Reader := StateT Reading Option

namespace Reader

/-- The next token. -/
def peek : Reader (Option Token) := do return (← get).rest.head?

/-- Moves over the next token. -/
def advance : Reader Unit := modify fun reading => { reading with rest := reading.rest.drop 1 }

/-- Whether the next token is the given one, which is then moved over. -/
def accept (token : Token) : Reader Bool := do
  if (← peek) = some token then
    advance
    return true
  else return false

/-- Whether the next token is one of the given ones. -/
def nextIn (tokens : List Token) : Reader Bool := do return (← peek).any tokens.contains

/-- Moves over a token that must be next. -/
def expect (token : Token) : Reader Unit := do guard (← accept token)

/-- The slot that a new anchor takes: it is numbered by the count of the names so far. The name
means this slot from here on. -/
def takeSlot (name : String) : Reader Nat := do
  let slots := (← get).slots
  modify fun reading => { reading with slots := (name, slots.length) :: slots.filter (·.1 != name) }
  return slots.length

/-- The slot of an anchor. -/
def slotOf (name : String) : Reader Nat := do (← get).slots.lookup name

end Reader

open Reader

/-- The meanings of the tag handles. -/
abbrev Handles := List (String × TagText)

/-- The tag that a handle and a suffix stand for. -/
def tagOf (handles : Handles) (handle : String) (suffix : TagText) : Option TagText :=
  if handle.isEmpty then some suffix else (handles.lookup handle).map (· ++ suffix)

/-- Reads an anchor, if one is next. -/
def anchorSlot : Reader (Option Nat) := do
  match ← peek with
  | some (.anchor name) =>
    advance
    return some (← takeSlot name)
  | _ => return none

/-- Reads a tag, if one is next. -/
def nodeTag (handles : Handles) : Reader (Option TagText) := do
  match ← peek with
  | some (.tag handle suffix) =>
    advance
    return some (← tagOf handles handle suffix)
  | _ => return none

/-- Reads an anchor and a tag, in either order. -/
def properties (handles : Handles) : Reader Properties := do
  match ← anchorSlot with
  | some slot => return { slot := some slot, tag := ← nodeTag handles }
  | none =>
    match ← nodeTag handles with
    | some tag => return { tag := some tag, slot := ← anchorSlot }
    | none => return {}

/-- The kinds of nodes that may stand at a place. -/
inductive Place where
  /-- Inside a flow collection there are no block collections. -/
  | flow
  /-- Any node may stand here. -/
  | block
  /-- Any node may stand here, also a sequence that is not indented. -/
  | entry
deriving DecidableEq

mutual

/-- Reads a node. -/
def node (handles : Handles) : Nat → Place → Reader Node
  | 0, _ => failure
  | fuel + 1, place => do
    match ← peek with
    | some (.alias name) =>
      advance
      return .alias (← slotOf name)
    | _ =>
      let properties ← properties handles
      match ← peek, place with
      | some (.scalar text plain), _ =>
        advance
        return .scalar properties text plain
      | some .flowSequenceStart, _ =>
        advance
        return .sequence properties (← flowItems handles fuel true)
      | some .flowMappingStart, _ =>
        advance
        return .mapping properties (← flowEntries handles fuel true)
      | some .blockEntry, .entry => return .sequence properties (← flushItems handles fuel)
      | some .blockSequenceStart, .block | some .blockSequenceStart, .entry =>
        advance
        return .sequence properties (← blockItems handles fuel)
      | some .blockMappingStart, .block | some .blockMappingStart, .entry =>
        advance
        return .mapping properties (← blockEntries handles fuel)
      | _, _ =>
        guard (properties ≠ {})
        return .scalar properties "" true

/-- Reads a node; nothing stands there if one of the given tokens is next. -/
def nodeUnless (handles : Handles) : Nat → Place → List Token → Reader Node
  | 0, _, _ => failure
  | fuel + 1, place, ends => do
    if ← nextIn ends then return .empty else node handles fuel place

/-- Reads a node after a mark; nothing stands there without the mark or before one of the given
tokens. -/
def nodeAfter (handles : Handles) : Nat → Place → Token → List Token → Reader Node
  | 0, _, _, _ => failure
  | fuel + 1, place, mark, ends => do
    if ← accept mark then nodeUnless handles fuel place ends else return .empty

/-- Reads the items of an indented sequence and its end. -/
def blockItems (handles : Handles) : Nat → Reader (List Node)
  | 0 => failure
  | fuel + 1 => do
    if ← accept .blockEntry then
      let item ← nodeUnless handles fuel .block [.blockEntry, .blockEnd]
      return item :: (← blockItems handles fuel)
    else
      expect .blockEnd
      return []

/-- Reads the items of a sequence that is not indented. -/
def flushItems (handles : Handles) : Nat → Reader (List Node)
  | 0 => failure
  | fuel + 1 => do
    if ← accept .blockEntry then
      let item ← nodeUnless handles fuel .block [.blockEntry, .key, .value, .blockEnd]
      return item :: (← flushItems handles fuel)
    else return []

/-- Reads the entries of a block mapping and its end. -/
def blockEntries (handles : Handles) : Nat → Reader (List (Node × Node))
  | 0 => failure
  | fuel + 1 => do
    if ← accept .key then
      let key ← nodeUnless handles fuel .entry [.key, .value, .blockEnd]
      let value ← nodeAfter handles fuel .entry .value [.key, .value, .blockEnd]
      return (key, value) :: (← blockEntries handles fuel)
    else
      expect .blockEnd
      return []

/-- Reads the items of a flow sequence and its end. All but the first follow a comma; after the last
one there may be a comma too. An item may be a single entry of a mapping. -/
def flowItems (handles : Handles) : Nat → Bool → Reader (List Node)
  | 0, _ => failure
  | fuel + 1, first => do
    if ← accept .flowSequenceEnd then return []
    else
      if !first then expect .flowEntry
      if ← accept .flowSequenceEnd then return []
      else
        let item ←
          if ← accept .key then flowPair handles fuel else node handles fuel .flow
        return item :: (← flowItems handles fuel false)

/-- Reads a single entry of a mapping as an item of a flow sequence. A key that is left out takes
the token after its mark with it. -/
def flowPair (handles : Handles) : Nat → Reader Node
  | 0 => failure
  | fuel + 1 => do
    let key ←
      if ← nextIn [.value, .flowEntry, .flowSequenceEnd] then
        advance
        pure .empty
      else node handles fuel .flow
    let value ← nodeAfter handles fuel .flow .value [.flowEntry, .flowSequenceEnd]
    return .mapping {} [(key, value)]

/-- Reads the entries of a flow mapping and its end. All but the first follow a comma; after the
last one there may be a comma too. A node without a mark before it is a key without value. -/
def flowEntries (handles : Handles) : Nat → Bool → Reader (List (Node × Node))
  | 0, _ => failure
  | fuel + 1, first => do
    if ← accept .flowMappingEnd then return []
    else
      if !first then expect .flowEntry
      if ← accept .flowMappingEnd then return []
      else
        let entry ←
          if ← accept .key then
            let key ← nodeUnless handles fuel .flow [.value, .flowEntry, .flowMappingEnd]
            pure (key, ← nodeAfter handles fuel .flow .value [.flowEntry, .flowMappingEnd])
          else pure (← node handles fuel .flow, .empty)
        return entry :: (← flowEntries handles fuel false)

end

/-! ## The document -/

/-- The tag handles that always have a meaning. -/
def standardHandles : Handles :=
  [("!", .ofString "!"), ("!!", .ofString "tag:yaml.org,2002:")]

/-- Reads the directives of a document. A handle has one directive, as has the version, which is 1.1
or 1.2. -/
def directives (versioned : Bool) (handles : Handles) : List Token → Option (Handles × List Token)
  | .versionDirective major minor :: rest =>
    if versioned ∨ major ≠ 1 ∨ (minor ≠ 1 ∧ minor ≠ 2) then none
    else directives true handles rest
  | .tagDirective handle uri :: rest =>
    if (handles.lookup handle).isSome then none
    else directives versioned ((handle, uri) :: handles) rest
  | rest => some (handles ++ standardHandles, rest)

/-- Reads the directives and the start of a document. A document without them starts with its
content. -/
def documentStart? (tokens : List Token) : Option (Handles × Bool × List Token) :=
  match tokens with
  | .versionDirective .. :: _ | .tagDirective .. :: _ | .documentStart :: _ =>
    match directives false [] tokens with
    | some (handles, .documentStart :: rest) => some (handles, true, rest)
    | _ => none
  | _ => some (standardHandles, false, tokens)

/-- Whether a document ends before a list of tokens. -/
def endsDocument : List Token → Bool
  | [] | .versionDirective .. :: _ | .tagDirective .. :: _ | .documentStart :: _
  | .documentEnd :: _ => true
  | _ => false

/-- The document that the tokens of a stream stand for. -/
def Node.ofTokens? (tokens : List Token) : Option Node := do
  let (handles, explicit, rest) ← documentStart? tokens
  let (node, reading) ←
    if rest.isEmpty || (explicit && endsDocument rest) then some (Node.empty, { rest := rest })
    else (node handles (4 * rest.length + 4) .block).run { rest := rest }
  if reading.rest.all (· = .documentEnd) then some node else none

end ZodModules.Yaml
