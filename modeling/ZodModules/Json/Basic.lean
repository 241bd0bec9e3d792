import ZodModules.Decimal.Binary64

/-!
# JSON values

Objects keep their members in the order in which the keys first appeared. Numbers written without
fraction and exponent are integers as long as they fit 64 bits; all others are binary64 numbers.
-/

namespace ZodModules

/-- A JSON number. -/
inductive Json.Number where
  | integer (value : Int)
  | float (value : Binary64)
deriving DecidableEq

/-- A JSON value. -/
inductive Json where
  | null
  | bool (value : Bool)
  | number (value : Json.Number)
  | string (value : String)
  | array (items : List Json)
  | object (members : List (String × Json))

namespace Json

instance : Inhabited Json := ⟨null⟩

namespace Number

/-- The integers that keep their exact value: those that fit an unsigned word of 64 bits, or a
signed one if negative. -/
def isExact (n : Int) : Bool := -Int.pow 2 63 ≤ n && n < Int.pow 2 64

/-- The nearest binary64 number. -/
def toBinary64? : Number → Option Binary64
  | .integer n => Binary64.ofInt n
  | .float x => some x

/-- The value of a number written as a natural number. -/
def toNat? : Number → Option Nat
  | .integer n => if 0 ≤ n then some n.toNat else none
  | .float _ => none

end Number

/-- The members of an object. -/
def members? : Json → Option (List (String × Json))
  | .object members => some members
  | _ => none

/-- The items of an array. -/
def items? : Json → Option (List Json)
  | .array items => some items
  | _ => none

/-- The text of a string. -/
def string? : Json → Option String
  | .string text => some text
  | _ => none

/-- The value of a truth value. -/
def bool? : Json → Option Bool
  | .bool b => some b
  | _ => none

/-- The value of a number written as a natural number. -/
def nat? : Json → Option Nat
  | .number n => n.toNat?
  | _ => none

/-- The binary64 number nearest to a number. -/
def binary64? : Json → Option Binary64
  | .number n => n.toBinary64?
  | _ => none

/-- The member of an object under a key. -/
def get? : Json → String → Option Json
  | .object members, key => members.lookup key
  | _, _ => none

theorem mem_of_lookup {key : String} {value : Json} {members : List (String × Json)}
    (h : members.lookup key = some value) : (key, value) ∈ members := by
  induction members with
  | nil => simp at h
  | cons m rest ih =>
    obtain ⟨name, first⟩ := m
    rw [List.lookup_cons] at h
    split at h
    · rename_i hk
      simp_all
    · exact List.mem_cons_of_mem _ (ih h)

theorem sizeOf_lt_of_mem_members {key : String} {value : Json} {members : List (String × Json)}
    (h : (key, value) ∈ members) : sizeOf value < sizeOf members := by
  have := List.sizeOf_lt_of_mem h
  simp only [Prod.mk.sizeOf_spec] at this
  omega

theorem sizeOf_lt_of_get? {json value : Json} {key : String} (h : json.get? key = some value) :
    sizeOf value < sizeOf json := by
  cases json with
  | object members =>
    have := sizeOf_lt_of_mem_members (mem_of_lookup h)
    simp only [object.sizeOf_spec]
    omega
  | _ => simp [get?] at h

theorem sizeOf_items_lt {items : List Json} {n : Nat} (h : sizeOf (array items) < n) :
    sizeOf items < n := by
  simp only [array.sizeOf_spec] at h
  omega

theorem sizeOf_head_lt (item : Json) (rest : List Json) : sizeOf item < sizeOf (item :: rest) := by
  rw [List.cons.sizeOf_spec]
  omega

theorem sizeOf_tail_lt (item : Json) (rest : List Json) : sizeOf rest < sizeOf (item :: rest) := by
  rw [List.cons.sizeOf_spec]
  omega

theorem sizeOf_members_lt {members : List (String × Json)} {n : Nat}
    (h : sizeOf (object members) < n) : sizeOf members < n := by
  simp only [object.sizeOf_spec] at h
  omega

end Json

end ZodModules
