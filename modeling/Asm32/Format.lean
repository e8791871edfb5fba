/-!
# Instruction formats

A format says which operands an instruction takes, in source order, and which
fields of the word they fill.  One table, `Format.slots`, gives both: the
encoder, the decoder and the checks on an instruction set all read it.
-/

namespace Asm32

/-- The fields an instruction word can be divided into. -/
inductive FieldName where
  | opcode
  | rd
  | rs
  | rt
  | imm
  | disp
deriving DecidableEq, Repr

/-- The spelling of a field name in messages and descriptions. -/
def FieldName.text : FieldName → String
  | .opcode => "opcode"
  | .rd => "rd"
  | .rs => "rs"
  | .rt => "rt"
  | .imm => "imm"
  | .disp => "disp"

/-- All fields, in the order in which descriptions list them. -/
def FieldName.all : List FieldName :=
  [.opcode, .rd, .rs, .rt, .imm, .disp]

/-- What an operand position expects: a register that goes into the named
field, a number, the name of a label, or an offset with a base register. -/
inductive Slot where
  | register (field : FieldName)
  | immediate
  | label
  | indexed
deriving DecidableEq, Repr

/-- The fields of the word that the operand in a slot fills. -/
def Slot.fields : Slot → List FieldName
  | .register field => [field]
  | .immediate => [.imm]
  | .label => [.disp]
  | .indexed => [.rs, .imm]

/-- The operand formats. -/
inductive Format where
  | rrr
  | rr
  | rri
  | ri
  | j
  | mem
  | trap
deriving DecidableEq, Repr

namespace Format

/-- All formats. -/
def all : List Format :=
  [.rrr, .rr, .rri, .ri, .j, .mem, .trap]

/-- The operand positions of a format, in source order. -/
def slots : Format → List Slot
  | .rrr => [.register .rd, .register .rs, .register .rt]
  | .rr => [.register .rs, .register .rt]
  | .rri => [.register .rd, .register .rs, .immediate]
  | .ri => [.register .rs, .immediate]
  | .j => [.label]
  | .mem => [.register .rd, .indexed]
  | .trap => [.immediate]

/-- The number of operands of a format. -/
def arity (f : Format) : Nat :=
  f.slots.length

/-- The fields that the operands of a format fill. -/
def fields (f : Format) : List FieldName :=
  f.slots.flatMap Slot.fields

/-- The spelling of a format in instruction-set descriptions. -/
def tag : Format → String
  | .rrr => "RRR"
  | .rr => "RR"
  | .rri => "RRI"
  | .ri => "RI"
  | .j => "J"
  | .mem => "MEM"
  | .trap => "TRAP"

/-- The spelling of a format in messages. -/
def name : Format → String
  | .rrr => "Rrr"
  | .rr => "Rr"
  | .rri => "Rri"
  | .ri => "Ri"
  | .j => "J"
  | .mem => "Mem"
  | .trap => "Trap"

/-- The format with a given spelling in descriptions. -/
def ofTag? (text : String) : Option Format :=
  all.find? fun f => f.tag == text

/-- Formats are told apart by their spelling. -/
theorem ofTag?_tag (f : Format) : ofTag? f.tag = some f := by
  cases f <;> decide

end Format

end Asm32
