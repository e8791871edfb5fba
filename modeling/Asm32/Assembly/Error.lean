import Asm32.Instruction.Encoding

/-!
# Failures of an assembly run

The causes that end a run, and the message for each.  Lines are counted from
one.
-/

namespace Asm32

/-- Why a run fails. -/
inductive AssemblyError where
  /-- A line is not in the source syntax. -/
  | syntaxError (line : Nat)
  /-- An instruction cannot be encoded. -/
  | encode (line : Nat) (cause : EncodeError)
  /-- A label is defined a second time. -/
  | duplicateLabel (line : Nat) (name : String)
  /-- A branch names a label that no line defines. -/
  | undefinedLabel (name : String)
  /-- The program has more words than the memory. -/
  | programTooLarge (words capacity : Nat)
  /-- A reference stands at an address where the program has no word.  The
  references that a scan records never do. -/
  | referenceOutside (address : Nat)
deriving DecidableEq, Repr

/-- The message for a failed run. -/
def AssemblyError.message : AssemblyError → String
  | .syntaxError line => "syntax error in line " ++ Text.decimal line
  | .encode line cause => "in line " ++ Text.decimal line ++ ": " ++ cause.message
  | .duplicateLabel line name =>
      "in line " ++ Text.decimal line ++ ": label `" ++ name ++ "' already defined"
  | .undefinedLabel name => "undefined label `" ++ name ++ "'"
  | .programTooLarge words capacity =>
      "program needs " ++ Text.decimal words ++ " words but memory holds only " ++
        Text.decimal capacity
  | .referenceOutside address =>
      "reference at word " ++ Text.decimal address ++ " lies outside the program"

/-- Read the source line with a given number. -/
def Line.parse (isa : InstructionSet) (number : Nat) (text : List Char) :
    Except AssemblyError Line :=
  match Line.parse? isa text with
  | some line => .ok line
  | none => .error (.syntaxError number)

end Asm32
