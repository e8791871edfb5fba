/-!
# Numerals

Reading and writing numbers in a given base.  Digits beyond nine are letters;
they are written in lower case and read in either case.

* `digitsValue?` reads a run of digits and refuses an empty run and any
  character that is no digit of the base.
* `hexWord?` reads a 32-bit number, which may have a plus sign in front.
* `hex`, `hexPadded`, `decimal` and `signedDecimal` write numbers.
-/

namespace Asm32.Text

/-- The value of a digit, up to base 36 and in either case. -/
def digitValue? (c : Char) : Option Nat :=
  if '0' ≤ c ∧ c ≤ '9' then some (c.toNat - '0'.toNat)
  else if 'a' ≤ c ∧ c ≤ 'z' then some (c.toNat - 'a'.toNat + 10)
  else if 'A' ≤ c ∧ c ≤ 'Z' then some (c.toNat - 'A'.toNat + 10)
  else none

/-- The value of a digit of base `base`. -/
def digitOf? (base : Nat) (c : Char) : Option Nat :=
  (digitValue? c).filter (· < base)

/-- Read on from the value of the digits already seen. -/
def digitsFrom? (base : Nat) : Nat → List Char → Option Nat
  | value, [] => some value
  | value, c :: rest =>
      match digitOf? base c with
      | some digit => digitsFrom? base (value * base + digit) rest
      | none => none

/-- The value of one or more digits of base `base`. -/
def digitsValue? (base : Nat) : List Char → Option Nat
  | [] => none
  | digits => digitsFrom? base 0 digits

/-- Read a number of 32 bits from hex digits, behind an optional plus sign. -/
def hexWord? (text : List Char) : Option (BitVec 32) :=
  let digits :=
    match text with
    | '+' :: rest => rest
    | _ => text
  (digitsValue? 16 digits).bind fun n =>
    if n < UInt32.size then some (BitVec.ofNat 32 n) else none

/-- The digits of a number in base 16, at least one. -/
def hex (n : Nat) : String :=
  String.ofList (Nat.toDigits 16 n)

/-- The digits of a number in base 16, filled up with zeros on the left to
`width` digits. -/
def hexPadded (width : Nat) (n : Nat) : String :=
  String.ofList ((Nat.toDigits 16 n).leftpad width '0')

/-- The decimal digits of a number. -/
def decimal (n : Nat) : String :=
  String.ofList (Nat.toDigits 10 n)

/-- The decimal digits of an integer, behind a minus sign if it is negative. -/
def decimalInt : Int → String
  | .ofNat n => decimal n
  | .negSucc n => "-" ++ decimal (n + 1)

/-- The decimal digits of an integer, always behind a sign. -/
def signedDecimal : Int → String
  | .ofNat n => "+" ++ decimal n
  | .negSucc n => "-" ++ decimal (n + 1)

end Asm32.Text
