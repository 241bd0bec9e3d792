import ZodModules.Data.Entries

/-!
# TOML values

Values and tables, and how a table grows line by line. Each table remembers how it came about: a
header opens a table once, and keys with points only extend tables that such keys made.
-/

namespace ZodModules

/-- How a table came about. -/
inductive Toml.Origin where
  /-- By a header of its own. -/
  | header
  /-- By the header of a table inside it. -/
  | implied
  /-- By a key with points. -/
  | dotted
  /-- As a value in braces, which is never extended. -/
  | inline
deriving DecidableEq

/-- A TOML value. -/
inductive Toml where
  | string (text : String)
  | boolean (value : Bool)
  /-- A number. No setting is one, so its value does not matter. -/
  | number
  /-- A number that is too large to be read. -/
  | excessive
  /-- A date, a time, or both. Their values do not matter either. -/
  | dateTime
  | array (items : List Toml)
  | table (origin : Toml.Origin) (members : List (String × Toml))
  /-- The tables of headers in double brackets, last first. -/
  | tables (elements : List (List (String × Toml)))

namespace Toml

instance : Inhabited Toml := ⟨number⟩

mutual

/-- Whether all numbers in a value can be read. -/
def isReadable : Toml → Bool
  | excessive => false
  | array items => areReadable items
  | table _ members => membersReadable members
  | tables elements => elementsReadable elements
  | string _ | boolean _ | number | dateTime => true

/-- Whether all numbers in some values can be read. -/
def areReadable : List Toml → Bool
  | [] => true
  | item :: rest => item.isReadable && areReadable rest

/-- Whether all numbers in some members can be read. -/
def membersReadable : List (String × Toml) → Bool
  | [] => true
  | (_, value) :: rest => value.isReadable && membersReadable rest

/-- Whether all numbers in some tables can be read. -/
def elementsReadable : List (List (String × Toml)) → Bool
  | [] => true
  | members :: rest => membersReadable members && elementsReadable rest

end

/-- The members of a table. -/
abbrev Members := List (String × Toml)

/-- Changes the value of a key, which is `none` if there is none yet. -/
def alter (members : Members) (key : String) (change : Option Toml → Option Toml) :
    Option Members :=
  (change (members.lookup key)).map fun value => Entries.set key value members

/-- Changes the last of some tables. -/
def alterLast (elements : List Members) (change : Members → Option Members) : Option Toml :=
  match elements with
  | [] => none
  | last :: others => (change last).map fun last => .tables (last :: others)

/-- Sets the value of a key with points. The tables on the way are made if they are missing. The
table that gets the value is one that keys with points made, or the one where the key starts. -/
def setDotted : List String → Toml → Members → Option Members
  | [], _, _ => none
  | [key], value, members =>
    alter members key fun
      | none => some value
      | some _ => none
  | key :: next :: rest, value, members =>
    alter members key fun
      | none => (setDotted (next :: rest) value []).map (.table .dotted)
      | some (.table .dotted inner) =>
        (setDotted (next :: rest) value inner).map (.table .dotted)
      | some (.table .implied inner) =>
        if rest.isEmpty then none else (setDotted (next :: rest) value inner).map (.table .implied)
      | some (.tables elements) =>
        if rest.isEmpty then none else alterLast elements (setDotted (next :: rest) value)
      | some _ => none

/-- Changes the table that a header leads to: the tables before the last key are made if they are
missing, and of the tables of a header in double brackets the last one is meant. -/
def alterTable (change : Option Toml → Option Toml) : List String → Members → Option Members
  | [], _ => none
  | [key], members => alter members key change
  | key :: next :: rest, members =>
    alter members key fun
      | none => (alterTable change (next :: rest) []).map (.table .implied)
      | some (.table .inline _) => none
      | some (.table origin inner) =>
        (alterTable change (next :: rest) inner).map (.table origin)
      | some (.tables elements) => alterLast elements (alterTable change (next :: rest))
      | some _ => none

/-- Opens the table of a header. One that other headers implied may still be opened. -/
def openTable : Option Toml → Option Toml
  | none => some (.table .header [])
  | some (.table .implied members) => some (.table .header members)
  | some _ => none

/-- Opens a further table of a header in double brackets. -/
def openElement : Option Toml → Option Toml
  | none => some (.tables [[]])
  | some (.tables elements) => some (.tables ([] :: elements))
  | some _ => none

/-- Sets the value of a key with points below a header. -/
def setBelow (key : List String) (value : Toml) : Option Toml → Option Toml
  | some (.table origin members) => (setDotted key value members).map (.table origin)
  | some (.tables elements) => alterLast elements (setDotted key value)
  | _ => none

end Toml

end ZodModules
