import Asm32.Field
import Asm32.Text.Numeral

/-!
# Registers and numbers in the source

A register is the register mark and a decimal number that its field can hold.
A number has an optional sign and is decimal, or hexadecimal before a final
`h`, or binary before a final `b`.  It may be of any length: the digits are added
up in 64 bits, and what does not fit is lost on the way.
-/

namespace Asm32

/-- Read a register that is to go into `field`. -/
def parseRegister? (mark : Char) (field : Field) (token : String) : Option Word :=
  match token.toList with
  | [] => none
  | c :: digits =>
      if c = mark then
        (Text.digitsValue? 10 digits).bind fun n =>
          if n ≤ field.maxValue.toNat then some (BitVec.ofNat 32 n) else none
      else
        none

namespace Literal

/-- Cut the sign off a number; the first part is whether it is negative. -/
def splitSign : List Char → Bool × List Char
  | '-' :: rest => (true, rest)
  | '+' :: rest => (false, rest)
  | text => (false, text)

/-- The digits of an unsigned number and their base. -/
def splitBase (text : List Char) : List Char × Nat :=
  match text.getLast? with
  | some 'h' => (text.dropLast, 16)
  | some 'b' => (text.dropLast, 2)
  | _ => (text, 10)

/-- Read on from the value of the digits already seen, in 64 bits. -/
def wrappedFrom? (base : Nat) : UInt64 → List Char → Option UInt64
  | value, [] => some value
  | value, c :: rest =>
      match Text.digitOf? base c with
      | some digit => wrappedFrom? base (value * UInt64.ofNat base + UInt64.ofNat digit) rest
      | none => none

/-- Read an unsigned number, in 64 bits. -/
def wrapped? (text : List Char) : Option UInt64 :=
  match splitBase text with
  | ([], _) => none
  | (digits, base) => wrappedFrom? base 0 digits

end Literal

/-- Read a number, in 64 bits. -/
def parseImmediate? (token : String) : Option Int64 :=
  (Literal.wrapped? (Literal.splitSign token.toList).2).map fun magnitude =>
    if (Literal.splitSign token.toList).1 then -magnitude.toInt64 else magnitude.toInt64

end Asm32
