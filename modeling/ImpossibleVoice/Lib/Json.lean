import Mathlib.Data.List.Basic
import Mathlib.Data.Nat.ModEq

namespace ImpossibleVoice.Lib

/-- A number: an integer of 64 bits by its sign, or the bits of a binary64. -/
inductive Json.Number
  | natural (n : UInt64)
  | negative (n : UInt64)
  | float (bits : UInt64)
deriving DecidableEq

/-- The keys of an object are those of a map; where a list repeats one, its
first entry counts. -/
inductive Json
  | null
  | bool (b : Bool)
  | number (n : Json.Number)
  | string (s : String)
  | array (items : List Json)
  | object (fields : List (String × Json))

namespace Json

def ofInt (n : Int) : Json :=
  if 0 ≤ n then number (.natural (.ofNat n.toNat)) else number (.negative (.ofNat (-n).toNat))

def asObject : Json → Option (List (String × Json))
  | object fields => some fields
  | _ => none

def asString : Json → Option String
  | string s => some s
  | _ => none

def asU32 : Json → Option Nat
  | number (.natural n) => if n.toNat < 2 ^ 32 then some n.toNat else none
  | _ => none

def asF32 {α : Type} (convert : Number → α) : Json → Option α
  | number n => some (convert n)
  | _ => none

def nullable {α : Type} (read : Json → Option α) : Json → Option (Option α)
  | null => some none
  | value => (read value).map some

/-- The fields of a record by their names: an object has them in any order, an
array in the order of the record. -/
def fields (names : List String) (denyUnknown : Bool) : Json → Option (String → Option Json)
  | object entries =>
    if denyUnknown = true ∧ ∃ entry ∈ entries, entry.1 ∉ names then none
    else some fun name => entries.lookup name
  | array items =>
      if names.length < items.length then none else some fun name => items[names.idxOf name]?
  | _ => none

def required {α : Type} (read : Json → Option α) (field : Option Json) : Option α := field.bind read

def defaulted {α : Type} (default : α) (read : Json → Option α) : Option Json → Option α
  | none => some default
  | some value => read value

end Json

end ImpossibleVoice.Lib
