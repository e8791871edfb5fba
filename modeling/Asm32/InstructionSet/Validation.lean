import Asm32.InstructionSet
import Asm32.Text.Blank
import Asm32.Text.Numeral
import Asm32.Text.Quoted

/-!
# Consistency of an instruction set

`InstructionSet.failure?` finds the first thing wrong with a description, in a
fixed order: memory size, markers, fields, the place of the opcode field, the
rows of the table in turn, and last the fields that share bits.
`InstructionSet.validate` turns it into a result.

The check itself can go wrong.  A field whose end is no 32-bit number can be
judged neither inside nor outside the word, and the check stops there without an
error of the description (`CheckFailure.overflow`).
-/

namespace Asm32

/-- The two characters that a description chooses for its source syntax. -/
inductive Marker where
  | comment
  | register
deriving DecidableEq, Repr

/-- What is wrong with the description of an instruction set. -/
inductive SetError where
  /-- A field is empty or reaches past the end of the word. -/
  | fieldOutOfRange (name : FieldName) (field : Field)
  /-- The opcode field does not end at the highest bit. -/
  | opcodeNotLeading
  /-- Two fields of one format share a bit. -/
  | overlap (format : Format) (first second : FieldName)
  /-- An opcode is too large for its field. -/
  | opcodeTooWide (mnemonic : String) (opcode : Word)
  /-- A mnemonic stands in two rows of the table. -/
  | duplicateMnemonic (mnemonic : String)
  /-- An opcode stands in two rows of the table. -/
  | duplicateOpcode (opcode : Word) (first second : String)
  /-- An instruction needs indexed addressing, which is not enabled. -/
  | indexedDisabled (mnemonic : String)
  /-- The memory has no words. -/
  | zeroCapacity
  /-- A marker is a character that the source syntax uses otherwise. -/
  | badMarker (marker : Marker) (c : Char)
deriving DecidableEq, Repr

/-- Why a check does not come to its end. -/
inductive CheckFailure where
  /-- Something is wrong with the description. -/
  | invalid (error : SetError)
  /-- The end of a field is no 32-bit number, and the check breaks off. -/
  | overflow (name : FieldName)
deriving DecidableEq, Repr

/-- The name of a marker in messages. -/
def Marker.text : Marker → String
  | .comment => "comment marker"
  | .register => "register prefix"

/-- The message for a faulty description. -/
def SetError.message : SetError → String
  | .fieldOutOfRange name field =>
      "field `" ++ name.text ++ "` (" ++ Text.decimal field.width.toNat ++ " bits at bit " ++
        Text.decimal field.shift.toNat ++ ") does not fit a 32-bit word"
  | .opcodeNotLeading => "opcode field must occupy the most significant bits of the word"
  | .overlap format first second =>
      "fields `" ++ first.text ++ "` and `" ++ second.text ++ "` overlap in " ++ format.name ++
        " instructions"
  | .opcodeTooWide mnemonic opcode =>
      "opcode 0x" ++ Text.hex opcode.toNat ++ " of `" ++ mnemonic ++
        "` does not fit the opcode field"
  | .duplicateMnemonic mnemonic => "duplicate mnemonic `" ++ mnemonic ++ "`"
  | .duplicateOpcode opcode first second =>
      "opcode 0x" ++ Text.hex opcode.toNat ++ " is assigned to both `" ++ first ++ "` and `" ++
        second ++ "`"
  | .indexedDisabled mnemonic =>
      "`" ++ mnemonic ++ "` uses the MEM format but indexed addressing is disabled"
  | .zeroCapacity => "memory capacity must be at least one word"
  | .badMarker marker c =>
      marker.text ++ " " ++ Text.quotedChar c ++ " clashes with the source syntax"

/-- The message for a check that does not come to its end. -/
def CheckFailure.message : CheckFailure → String
  | .invalid error => error.message
  | .overflow _ => "attempt to add with overflow"

namespace InstructionSet

/-- The punctuation of the source syntax, which cannot start a comment. -/
def isReserved (c : Char) : Bool :=
  [':', ',', '(', ')', '-', '+', '_'].contains c

/-- Whether a character may start comments. -/
def isCommentMarker (c : Char) : Bool :=
  !isReserved c && !Text.isBlank c && !c.isAlphanum

/-- Whether a character may stand in front of register numbers. -/
def isRegisterMark (c : Char) : Bool :=
  c.isAlpha

/-- The memory must hold a word. -/
def memoryViolation? (isa : InstructionSet) : Option SetError :=
  if isa.memoryWords = 0 then some .zeroCapacity else none

/-- The markers must not clash with the rest of the syntax. -/
def markerViolation? (isa : InstructionSet) : Option SetError :=
  if !isCommentMarker isa.comment then some (.badMarker .comment isa.comment)
  else if !isRegisterMark isa.registerMark then some (.badMarker .register isa.registerMark)
  else none

/-- Every field must fit the word. -/
def fieldFailure? (isa : InstructionSet) : Option CheckFailure :=
  FieldName.all.findSome? fun name =>
    match (isa.layout.field name).fitsWord? with
    | some true => none
    | some false => some (.invalid (.fieldOutOfRange name (isa.layout.field name)))
    | none => some (.overflow name)

/-- The opcode field must end at the highest bit. -/
def leadingFailure? (isa : InstructionSet) : Option CheckFailure :=
  match isa.layout.opcode.end? with
  | some bit => if bit.toNat = wordBits then none else some (.invalid .opcodeNotLeading)
  | none => some (.overflow .opcode)

/-- What is wrong with a row of the table, given the rows above it. -/
def rowViolation? (isa : InstructionSet) (above : List Instruction) (row : Instruction) :
    Option SetError :=
  if above.any fun i => i.mnemonic == row.mnemonic then
    some (.duplicateMnemonic row.mnemonic)
  else
    match above.find? fun i => i.opcode == row.opcode with
    | some first => some (.duplicateOpcode row.opcode first.mnemonic row.mnemonic)
    | none =>
        if isa.layout.opcode.maxValue < row.opcode then
          some (.opcodeTooWide row.mnemonic row.opcode)
        else if row.format = .mem ∧ isa.indexed = false then
          some (.indexedDisabled row.mnemonic)
        else
          none

/-- The first fault in the rows of the table, taken in order. -/
def tableViolation? (isa : InstructionSet) (above : List Instruction) :
    List Instruction → Option SetError
  | [] => none
  | row :: rest => (isa.rowViolation? above row).or (isa.tableViolation? (above ++ [row]) rest)

/-- The fields of a format must not share bits. -/
def formatViolation? (isa : InstructionSet) (format : Format) : Option SetError :=
  (isa.layout.overlap? format).map fun pair => .overlap format pair.1 pair.2

/-- The first fault in the formats of the rows.  A format that has been checked is
passed over. -/
def overlapViolation? (isa : InstructionSet) (checked : List Format) :
    List Instruction → Option SetError
  | [] => none
  | row :: rest =>
      if checked.contains row.format then
        isa.overlapViolation? checked rest
      else
        (isa.formatViolation? row.format).or
          (isa.overlapViolation? (checked ++ [row.format]) rest)

/-- The first thing that keeps a description from being consistent. -/
def failure? (isa : InstructionSet) : Option CheckFailure :=
  ((isa.memoryViolation?.or isa.markerViolation?).map .invalid).or <|
  isa.fieldFailure?.or <|
  isa.leadingFailure?.or <|
  ((isa.tableViolation? [] isa.instructions).or
    (isa.overlapViolation? [] isa.instructions)).map .invalid

/-- Check that a description is consistent. -/
def validate (isa : InstructionSet) : Except CheckFailure Unit :=
  match isa.failure? with
  | some e => .error e
  | none => .ok ()

end InstructionSet

end Asm32
