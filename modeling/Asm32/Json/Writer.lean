import Asm32.Json
import Asm32.Text.Numeral

/-!
# Writing JSON

`Json.compact` writes a value without blanks.  `Json.pretty` puts each item and
each member on a line of its own, two spaces further in than the value that
holds it.  Strings escape quotes, backslashes and control characters, and leave
every other character as it is.
-/

namespace Asm32.Json

/-- A character inside a string. -/
def escapeChar (c : Char) : String :=
  match c with
  | '"' => "\\\""
  | '\\' => "\\\\"
  | '\x08' => "\\b"
  | '\x0c' => "\\f"
  | '\n' => "\\n"
  | '\r' => "\\r"
  | '\t' => "\\t"
  | c => if c.toNat < 0x20 then "\\u" ++ Text.hexPadded 4 c.toNat else c.toString

/-- A string.  Half of a surrogate pair stands for a string without a text. -/
def quote : JsonText → String
  | some text => "\"" ++ String.join (text.toList.map escapeChar) ++ "\""
  | none => "\"\\ud800\""

mutual

/-- A value without blanks. -/
def compact : Json → String
  | .null => "null"
  | .bool value => if value then "true" else "false"
  | .int value => Text.decimalInt value
  | .real literal => literal
  | .str text => quote text
  | .arr items => "[" ++ compactItems true items ++ "]"
  | .obj members => "\x7b" ++ compactMembers true members ++ "\x7d"

/-- The items of an array, with a comma in front of each but the first. -/
def compactItems (first : Bool) : List Json → String
  | [] => ""
  | item :: rest => (if first then "" else ",") ++ compact item ++ compactItems false rest

/-- The members of an object, with a comma in front of each but the first. -/
def compactMembers (first : Bool) : List (JsonText × Json) → String
  | [] => ""
  | (key, value) :: rest =>
      (if first then "" else ",") ++ quote key ++ ":" ++ compact value ++
        compactMembers false rest

end

/-- A new line, indented by `depth` levels. -/
def newLine (depth : Nat) : String :=
  "\n" ++ String.ofList (List.replicate (2 * depth) ' ')

mutual

/-- A value over several lines, inside `depth` others. -/
def prettyAt (depth : Nat) : Json → String
  | .arr [] => "[]"
  | .obj [] => "\x7b\x7d"
  | .arr items => "[" ++ prettyItems (depth + 1) true items ++ newLine depth ++ "]"
  | .obj members => "\x7b" ++ prettyMembers (depth + 1) true members ++ newLine depth ++ "\x7d"
  | .null => "null"
  | .bool value => if value then "true" else "false"
  | .int value => Text.decimalInt value
  | .real literal => literal
  | .str text => quote text

/-- The items of an array, each on a new line. -/
def prettyItems (depth : Nat) (first : Bool) : List Json → String
  | [] => ""
  | item :: rest =>
      (if first then "" else ",") ++ newLine depth ++ prettyAt depth item ++
        prettyItems depth false rest

/-- The members of an object, each on a new line. -/
def prettyMembers (depth : Nat) (first : Bool) : List (JsonText × Json) → String
  | [] => ""
  | (key, value) :: rest =>
      (if first then "" else ",") ++ newLine depth ++ quote key ++ ": " ++ prettyAt depth value ++
        prettyMembers depth false rest

end

/-- A value over several lines. -/
def pretty (json : Json) : String :=
  prettyAt 0 json

end Asm32.Json
