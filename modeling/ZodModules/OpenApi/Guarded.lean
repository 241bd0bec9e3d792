import ZodModules.OpenApi.Convert

/-!
# Conversion with one guard

Conversion as a program that keeps one set of the components that are being merged: a component
enters the set before it is converted as a member of a composition and leaves it afterwards. The
program notes what it does with that set. What it does at one call is said in terms of what it calls;
nothing in its text says that the calls come to an end, so it runs to a given depth of calls.
-/

namespace ZodModules.OpenApi.Guarded

open Schema (Kind Property)

/-- What happens to the components that are being merged. The names that enclosing compositions
merge stand with the innermost first. -/
inductive Event where
  /-- A value has been converted: the set before and after. -/
  | call (enclosing : List String) (value : Json) (received returned : NameSet)
  /-- A member of a composition is a reference, and its component is converted or left out. -/
  | member (enclosing : List String) (name : String) (converted : Bool)

/-- The components that are being merged, and what has happened to them. -/
structure State where
  merging : NameSet
  events : List Event

/-- A program with a state; if its calls go too deep it has no result. -/
abbrev Conversion := StateT State Option

/-- The components that are being merged. -/
def merging : Conversion NameSet := do return (← get).merging

/-- Notes an event. -/
def note (event : Event) : Conversion Unit :=
  modify fun state => { state with events := state.events ++ [event] }

/-- Adds a component to those being merged, and tells whether it was not one of them. -/
def enter (name : String) : Conversion Bool :=
  modifyGet fun state =>
    (!state.merging.contains name, { state with merging := state.merging.insert name })

/-- Removes a component from those being merged. -/
def leave (name : String) : Conversion Unit :=
  modify fun state => { state with merging := state.merging.erase name }

/-- The conversion of a value in the place of a schema, within some compositions. -/
abbrev Call := (enclosing : List String) → (value : Json) → Conversion Schema

/-- Converts the properties that a schema object declares. -/
def convertProperties (call : Call) (enclosing : List String) (value : Json) :
    Conversion (List (Property Schema)) :=
  match value.get? "properties" with
  | some (.object members) => members.mapM fun member => do
    return ⟨member.1, ← call enclosing member.2⟩
  | _ => pure []

/-- Converts a schema object as one of a type. -/
def convertType (call : Call) (enclosing : List String) (value : Json) (type : String) :
    Conversion Schema :=
  if type = "string" then pure (.ofKind (.string (stringFacets value)))
  else if type = "number" then pure (.ofKind (.number (numberFacets value false)))
  else if type = "integer" then pure (.ofKind (.number (numberFacets value true)))
  else if type = "boolean" then pure (.ofKind .boolean)
  else if type = "array" then
    match value.get? "items" with
    | some items => do return .ofKind (.array (some (← call enclosing items)))
    | none => pure (.ofKind (.array none))
  else if type = "object" then do
    let properties ← convertProperties call enclosing value
    match value.get? "additionalProperties" with
    | some entries =>
      if properties.isEmpty && entries.members?.isSome then
        return .ofKind (.record (← call enclosing entries))
      else return .ofKind (.object properties (requiredNames value))
    | none => return .ofKind (.object properties (requiredNames value))
  else pure emptyObject

/-- Converts a schema object that is neither a reference nor composed. -/
def convertPlainly (call : Call) (enclosing : List String) (value : Json) : Conversion Schema :=
  match valueTypes value with
  | [] =>
    if declaresNull value then pure (.ofKind .null)
    else if (value.get? "properties").isSome || (value.get? "additionalProperties").isSome then
      convertType call enclosing value "object"
    else if (value.get? "items").isSome then convertType call enclosing value "array"
    else if (value.get? "enum").isSome then pure (.ofKind (.string (stringFacets value)))
    else pure emptyObject
  | [type] => convertType call enclosing value type
  | types => do
    return .ofKind (.oneOf (← types.mapM (convertType call enclosing value)) none)

/-- Converts a member of a composition of several. -/
def convertMember (components : Components) (call : Call) (enclosing : List String)
    (member : Json) : Conversion (Option Schema) :=
  match (member.get? "$ref").bind Json.string? with
  | none => do return some (← call enclosing member)
  | some reference =>
    let name := refName reference
    match components.lookup name with
    | some target => do
      if ← enter name then
        note (.member enclosing name true)
        let schema ← call (name :: enclosing) target
        leave name
        return some schema
      else
        note (.member enclosing name false)
        return none
    | none => do
      note (.member enclosing name false)
      return none

/-- Converts the only member of a composition, or merges what several are converted to. -/
def convertComposition (components : Components) (call : Call) (enclosing : List String) :
    List Json → Conversion Schema
  | [member] => call enclosing member
  | members => do
    let converted ← members.mapM (convertMember components call enclosing)
    return .ofKind (mergeObjects (converted.filterMap id))

/-- Converts a schema object without its metadata. -/
def convertKind (components : Components) (call : Call) (enclosing : List String) (value : Json) :
    Conversion Schema :=
  match (value.get? "$ref").bind Json.string? with
  | some reference => pure (.ofKind (.ref (refName reference)))
  | none =>
    match (value.get? "oneOf").or (value.get? "anyOf") with
    | some (.array branches) => do
      return unionOf (discriminator? value) (← branches.mapM (call enclosing))
    | _ =>
      match value.get? "allOf" with
      | some (.array members) => convertComposition components call enclosing members
      | _ => convertPlainly call enclosing value

/-- Converts a value in the place of a schema; one that is no object says nothing. -/
def convertValue (components : Components) (call : Call) : Call := fun enclosing value => do
  let received ← merging
  let schema ← match value.members? with
    | some _ => addMetadata value <$> convertKind components call enclosing value
    | none => pure emptyObject
  let returned ← merging
  note (.call enclosing value received returned)
  return schema

/-- Converts a value with calls down to a depth. -/
def convertTo (components : Components) : (depth : Nat) → Call
  | 0 => fun _ _ _ => none
  | depth + 1 => convertValue components (convertTo components depth)

/-- Converts a value while nothing is being merged. -/
def run (components : Components) (depth : Nat) (value : Json) : Option (Schema × State) :=
  convertTo components depth [] value ⟨∅, []⟩

end ZodModules.OpenApi.Guarded
