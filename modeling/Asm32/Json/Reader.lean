import Asm32.Json
import Asm32.Text.Numeral

/-!
# Reading JSON

A strict reader: no comments, no trailing commas, no leading zeros, no control
characters in strings.  `Json.value?` reads a value off the front of a text and
returns the rest; `Json.parse?` wants the whole text.  Values nest to any depth:
the fuel of `readValue?` bounds the nesting and is the length of the text.
-/

namespace Asm32.Json

/-- The blanks that JSON allows between tokens. -/
def isJsonBlank (c : Char) : Bool :=
  c == ' ' || c == '\t' || c == '\n' || c == '\r'

/-- The text without the blanks at its front. -/
def skipBlanks (text : List Char) : List Char :=
  text.dropWhile isJsonBlank

/-! ## Strings -/

/-- A piece of a string: a character, or a code unit given by number. -/
inductive StringUnit where
  | char (c : Char)
  | unit (code : Nat)
deriving DecidableEq, Repr

/-- The character that a short escape stands for. -/
def shortEscape? : Char → Option Char
  | '"' => some '"'
  | '\\' => some '\\'
  | '/' => some '/'
  | 'b' => some '\x08'
  | 'f' => some '\x0c'
  | 'n' => some '\n'
  | 'r' => some '\r'
  | 't' => some '\t'
  | _ => none

/-- The pieces of a string up to its closing quote, and the text behind it. -/
def stringUnits? : List Char → Option (List StringUnit × List Char)
  | [] => none
  | '"' :: rest => some ([], rest)
  | '\\' :: 'u' :: a :: b :: c :: d :: rest =>
      (Text.digitsValue? 16 [a, b, c, d]).bind fun code =>
        (stringUnits? rest).map fun (units, behind) => (.unit code :: units, behind)
  | '\\' :: c :: rest =>
      (shortEscape? c).bind fun escaped =>
        (stringUnits? rest).map fun (units, behind) => (.char escaped :: units, behind)
  | c :: rest =>
      if c.toNat < 0x20 ∨ c = '\\' then none
      else (stringUnits? rest).map fun (units, behind) => (.char c :: units, behind)

/-- Whether a code unit is the first half of a surrogate pair. -/
def isHighSurrogate (code : Nat) : Bool :=
  0xd800 ≤ code && code < 0xdc00

/-- Whether a code unit is the second half of a surrogate pair. -/
def isLowSurrogate (code : Nat) : Bool :=
  0xdc00 ≤ code && code < 0xe000

/-- The characters that the pieces of a string denote.  The two halves of a
surrogate pair must stand next to each other. -/
def unitChars? : List StringUnit → Option (List Char)
  | [] => some []
  | .char c :: rest => (unitChars? rest).map (c :: ·)
  | .unit high :: .unit low :: rest =>
      if isHighSurrogate high then
        if isLowSurrogate low then
          (unitChars? rest).map
            (Char.ofNat (0x10000 + (high - 0xd800) * 0x400 + (low - 0xdc00)) :: ·)
        else
          none
      else if isLowSurrogate high then
        none
      else
        (unitChars? (.unit low :: rest)).map (Char.ofNat high :: ·)
  | .unit code :: rest =>
      if isHighSurrogate code || isLowSurrogate code then none
      else (unitChars? rest).map (Char.ofNat code :: ·)

/-- A string behind its opening quote, and the text behind it. -/
def readString? (text : List Char) : Option (JsonText × List Char) :=
  (stringUnits? text).map fun (units, behind) => ((unitChars? units).map String.ofList, behind)

/-! ## Numbers -/

/-- Whether a character is a decimal digit. -/
def isDecimalDigit (c : Char) : Bool :=
  '0' ≤ c && c ≤ '9'

/-- One or more digits at the front of a text, and the text behind them. -/
def digits? (text : List Char) : Option (List Char × List Char) :=
  if (text.takeWhile isDecimalDigit).isEmpty then none
  else some (text.takeWhile isDecimalDigit, text.dropWhile isDecimalDigit)

/-- The digits of a whole number; a zero is followed by no further digit. -/
def wholeDigits? (text : List Char) : Option (List Char × List Char) :=
  match digits? text with
  | some (digits, behind) => if digits.head? = some '0' ∧ digits.length ≠ 1 then none
      else some (digits, behind)
  | none => none

/-- The fraction of a number, empty if there is none, and the text behind
it. -/
def fraction? : List Char → Option (List Char × List Char)
  | '.' :: rest => (digits? rest).map fun (digits, behind) => ('.' :: digits, behind)
  | text => some ([], text)

/-- The sign of an exponent, empty if there is none, and the text behind it. -/
def exponentSign : List Char → List Char × List Char
  | '+' :: rest => (['+'], rest)
  | '-' :: rest => (['-'], rest)
  | text => ([], text)

/-- The exponent of a number, empty if there is none, and the text behind
it. -/
def exponent? : List Char → Option (List Char × List Char)
  | c :: rest =>
      if c = 'e' ∨ c = 'E' then
        (digits? (exponentSign rest).2).map fun (digits, behind) =>
          (c :: (exponentSign rest).1 ++ digits, behind)
      else
        some ([], c :: rest)
  | [] => some ([], [])

/-- A number without its sign: its whole digits, the rest of its spelling, and
the text behind it. -/
def unsigned? (text : List Char) : Option (List Char × List Char × List Char) :=
  (wholeDigits? text).bind fun (digits, afterDigits) =>
    (fraction? afterDigits).bind fun (fraction, afterFraction) =>
      (exponent? afterFraction).map fun (exponent, behind) =>
        (digits, fraction ++ exponent, behind)

/-- A number that does not start with a minus sign. -/
def readPositive? (text : List Char) : Option (Json × List Char) :=
  (unsigned? text).map fun (digits, tail, behind) =>
    if tail.isEmpty then (.int ((Text.digitsValue? 10 digits).getD 0), behind)
    else (.real (String.ofList (digits ++ tail)), behind)

/-- A number behind its minus sign. -/
def readNegative? (text : List Char) : Option (Json × List Char) :=
  (unsigned? text).map fun (digits, tail, behind) =>
    let value := (Text.digitsValue? 10 digits).getD 0
    if tail.isEmpty && value != 0 then (.int (-(value : Int)), behind)
    else (.real (String.ofList ('-' :: digits ++ tail)), behind)

/-! ## Values -/

/-- Drop a given text from the front. -/
def expect? : List Char → List Char → Option (List Char)
  | [], text => some text
  | _ :: _, [] => none
  | c :: cs, d :: rest => if c = d then expect? cs rest else none

mutual

/-- A value at the front of a text, behind blanks, and the text behind it. -/
def readValue? : Nat → List Char → Option (Json × List Char)
  | 0, _ => none
  | fuel + 1, text =>
      match skipBlanks text with
      | [] => none
      | '"' :: rest => (readString? rest).map fun (string, behind) => (.str string, behind)
      | '[' :: rest =>
          match skipBlanks rest with
          | ']' :: behind => some (.arr [], behind)
          | _ => (readItems? fuel rest).map fun (items, behind) => (.arr items, behind)
      | '\x7b' :: rest =>
          match skipBlanks rest with
          | '\x7d' :: behind => some (.obj [], behind)
          | _ => (readMembers? fuel rest).map fun (members, behind) => (.obj members, behind)
      | '-' :: rest => readNegative? rest
      | 'n' :: rest => (expect? ['u', 'l', 'l'] rest).map (.null, ·)
      | 't' :: rest => (expect? ['r', 'u', 'e'] rest).map (.bool true, ·)
      | 'f' :: rest => (expect? ['a', 'l', 's', 'e'] rest).map (.bool false, ·)
      | c :: rest => readPositive? (c :: rest)

/-- One or more items up to the closing bracket, and the text behind it. -/
def readItems? : Nat → List Char → Option (List Json × List Char)
  | 0, _ => none
  | fuel + 1, text =>
      match readValue? fuel text with
      | none => none
      | some (item, afterItem) =>
          match skipBlanks afterItem with
          | ']' :: behind => some ([item], behind)
          | ',' :: rest =>
              (readItems? fuel rest).map fun (items, behind) => (item :: items, behind)
          | _ => none

/-- One or more members up to the closing brace, and the text behind it. -/
def readMembers? : Nat → List Char → Option (List (JsonText × Json) × List Char)
  | 0, _ => none
  | fuel + 1, text =>
      match skipBlanks text with
      | '"' :: rest =>
          match readString? rest with
          | none => none
          | some (key, afterKey) =>
              match skipBlanks afterKey with
              | ':' :: afterColon =>
                  match readValue? fuel afterColon with
                  | none => none
                  | some (value, afterValue) =>
                      match skipBlanks afterValue with
                      | '\x7d' :: behind => some ([(key, value)], behind)
                      | ',' :: rest =>
                          (readMembers? fuel rest).map fun (members, behind) =>
                            ((key, value) :: members, behind)
                      | _ => none
              | _ => none
      | _ => none

end

/-- A value at the front of a text, and the text behind it. -/
def value? (text : List Char) : Option (Json × List Char) :=
  readValue? (text.length + 1) text

/-- Whether nothing but blanks is left. -/
def atEnd (text : List Char) : Bool :=
  (skipBlanks text).isEmpty

/-- The value of a whole text. -/
def parse? (text : String) : Option Json :=
  (value? text.toList).bind fun (json, behind) => if atEnd behind then some json else none

end Asm32.Json
