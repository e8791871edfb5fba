import Asm32.Layout

/-!
# Instruction sets

An instruction set is data: the markers of its source syntax, its features, the
size of its memory, the layout of its words and its table of instructions.
-/

namespace Asm32

/-- Optional abilities of an instruction set, one bit each.  Bits without a
meaning are kept. -/
structure Features where
  bits : BitVec 32
deriving DecidableEq, Repr

namespace Features

/-- No feature. -/
def empty : Features := ⟨0⟩

/-- Memory operands that add an offset to a base register. -/
def indexedAddressing : Features := ⟨1⟩

/-- Whether memory operands with a base register are allowed. -/
def indexed (features : Features) : Bool :=
  features.bits &&& indexedAddressing.bits != 0

/-- The features of either. -/
def union (a b : Features) : Features :=
  ⟨a.bits ||| b.bits⟩

end Features

/-- One row of the instruction table. -/
structure Instruction where
  mnemonic : String
  opcode : Word
  format : Format
deriving DecidableEq, Repr

/-- An instruction set. -/
structure InstructionSet where
  name : String
  /-- The character that starts a comment. -/
  comment : Char
  /-- The character in front of a register number. -/
  registerMark : Char
  features : Features
  /-- The number of words an image holds. -/
  memoryWords : UInt64
  layout : Layout
  instructions : List Instruction
deriving DecidableEq, Repr

namespace InstructionSet

/-- The number of words of memory where a description gives none. -/
def defaultMemoryWords : UInt64 := 256

/-- The instruction with a given mnemonic. -/
def lookup? (isa : InstructionSet) (mnemonic : String) : Option Instruction :=
  isa.instructions.find? fun i => i.mnemonic == mnemonic

/-- The instruction with a given opcode. -/
def byOpcode? (isa : InstructionSet) (opcode : Word) : Option Instruction :=
  isa.instructions.find? fun i => i.opcode == opcode

/-- Whether memory operands with a base register are allowed. -/
def indexed (isa : InstructionSet) : Bool :=
  isa.features.indexed

/-- The same instruction set with another memory size. -/
def withCapacity (isa : InstructionSet) (capacity : UInt64) : InstructionSet :=
  { isa with memoryWords := capacity }

end InstructionSet

end Asm32
