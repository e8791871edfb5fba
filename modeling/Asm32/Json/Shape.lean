import Asm32.Json

/-!
# Reading values of a known shape

Functions that take a JSON value apart as a number in a given range, a text, a
character, a list or a record.  A record is an object with its fields in any
order, or an array with all of them in a fixed order.  Members of an object
that the record does not know are ignored, but a field that stands there twice
is refused.
-/

namespace Asm32.Json

/-- A whole number from `low` to `high`, both included. -/
def intWithin? (low high : Int) : Json → Option Int
  | .int n => if low ≤ n ∧ n ≤ high then some n else none
  | _ => none

/-- A whole number below `size`, which is at least one. -/
def natBelow? (size : Nat) (json : Json) : Option Nat :=
  (intWithin? 0 (size - 1) json).map Int.toNat

/-- A number of 32 bits. -/
def word? (json : Json) : Option (BitVec 32) :=
  (natBelow? UInt32.size json).map (BitVec.ofNat 32)

/-- A number of 64 bits. -/
def uint64? (json : Json) : Option UInt64 :=
  (natBelow? UInt64.size json).map UInt64.ofNat

/-- A signed number of 64 bits. -/
def int64? (json : Json) : Option Int64 :=
  (intWithin? Int64.minValue.toInt Int64.maxValue.toInt json).map Int64.ofInt

/-- A text. -/
def text? : Json → Option String
  | .str text => text
  | _ => none

/-- A text of one character. -/
def char? (json : Json) : Option Char :=
  match (text? json).map String.toList with
  | some [c] => some c
  | _ => none

/-- A list of values of one shape. -/
def list? {α : Type} (f : Json → Option α) : Json → Option (List α)
  | .arr items => items.mapM f
  | _ => none

/-- The member of an object with a given key, if there is one; a second one is
refused. -/
def member? (members : List (JsonText × Json)) (name : String) : Option (Option Json) :=
  match members.filter fun member => member.1 == some name with
  | [] => some none
  | [member] => some (some member.2)
  | _ => none

/-- The fields of a record, in the order of their names; one may be missing in
an object. -/
def fields? (names : List String) : Json → Option (List (Option Json))
  | .arr items => if items.length = names.length then some (items.map some) else none
  | .obj members =>
      if members.all fun member => member.1.isSome then names.mapM (member? members) else none
  | _ => none

/-- The only member of an object that has one, as a tag and a value. -/
def tagged? : Json → Option (String × Json)
  | .obj [(some tag, value)] => some (tag, value)
  | _ => none

end Asm32.Json
