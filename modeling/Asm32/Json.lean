/-!
# JSON values

The values that JSON text denotes, with what the readers of this library need
to tell apart: an object keeps the order of its members and repeated keys, and
a number that is not written as an integer keeps its spelling.
-/

namespace Asm32

/-- The text that a JSON string denotes.  An escape may name half of a
surrogate pair without the other half; such a string is well formed but denotes
no text. -/
abbrev JsonText := Option String

/-- A JSON value. -/
inductive Json where
  | null
  | bool (value : Bool)
  | int (value : Int)
  /-- A number with a fraction or an exponent, or a negative zero. -/
  | real (literal : String)
  | str (text : JsonText)
  | arr (items : List Json)
  | obj (members : List (JsonText × Json))

namespace Json

/-- The string of a given text. -/
def ofString (text : String) : Json :=
  .str (some text)

/-- The string of one character. -/
def ofChar (c : Char) : Json :=
  .str (some c.toString)

/-- The number of a given value. -/
def ofNat (n : Nat) : Json :=
  .int n

/-- A value that may be absent, where absence is `null`. -/
def ofOption {α : Type} (f : α → Json) : Option α → Json
  | some a => f a
  | none => .null

/-- The object with given members, all keys different. -/
def record (members : List (String × Json)) : Json :=
  .obj (members.map fun member => (some member.1, member.2))

end Json

end Asm32
