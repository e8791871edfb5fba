import Asm32.InstructionSet

/-!
# Built-in instruction sets

Two instruction sets that need no description file: `basic`, with registers,
immediates and one jump, and `extended`, which adds comparisons, conditional
branches, memory access and traps.
-/

namespace Asm32.InstructionSet

/-- Arithmetic and logic, on registers and with an immediate.  Both built-in
sets start with these. -/
def arithmetic : List Instruction :=
  [⟨"add", 0x00, .rrr⟩, ⟨"sub", 0x01, .rrr⟩, ⟨"and", 0x02, .rrr⟩, ⟨"or", 0x03, .rrr⟩,
   ⟨"xor", 0x04, .rrr⟩, ⟨"nand", 0x05, .rrr⟩, ⟨"shl", 0x06, .rrr⟩, ⟨"shr", 0x07, .rrr⟩,
   ⟨"addi", 0x08, .rri⟩, ⟨"subi", 0x09, .rri⟩, ⟨"andi", 0x0a, .rri⟩, ⟨"ori", 0x0b, .rri⟩,
   ⟨"xori", 0x0c, .rri⟩, ⟨"nandi", 0x0d, .rri⟩, ⟨"shli", 0x0e, .rri⟩, ⟨"shri", 0x0f, .rri⟩]

/-- Thirty-two registers, a six-bit opcode and a single jump. -/
def basic : InstructionSet where
  name := "basic"
  comment := '#'
  registerMark := 'r'
  features := .empty
  memoryWords := defaultMemoryWords
  layout :=
    { opcode := ⟨26, 6⟩
      rd := ⟨21, 5⟩
      rs := ⟨16, 5⟩
      rt := ⟨11, 5⟩
      imm := ⟨0, 16⟩
      disp := ⟨0, 16⟩ }
  instructions := arithmetic ++ [⟨"j", 0x10, .j⟩]

/-- Sixteen registers, an eight-bit opcode, and indexed memory access. -/
def extended : InstructionSet where
  name := "extended"
  comment := ';'
  registerMark := 'r'
  features := .indexedAddressing
  memoryWords := defaultMemoryWords
  layout :=
    { opcode := ⟨24, 8⟩
      rd := ⟨20, 4⟩
      rs := ⟨16, 4⟩
      rt := ⟨12, 4⟩
      imm := ⟨0, 16⟩
      disp := ⟨0, 16⟩ }
  instructions :=
    arithmetic ++
      [⟨"cmp", 0x10, .rr⟩, ⟨"cmpi", 0x11, .ri⟩, ⟨"ld", 0x18, .mem⟩, ⟨"st", 0x19, .mem⟩,
       ⟨"b", 0x20, .j⟩, ⟨"beq", 0x21, .j⟩, ⟨"bne", 0x22, .j⟩, ⟨"blt", 0x23, .j⟩,
       ⟨"bge", 0x24, .j⟩, ⟨"call", 0x25, .j⟩, ⟨"trap", 0x30, .trap⟩]

/-- The built-in sets by name. -/
inductive Variant where
  | basic
  | extended
deriving DecidableEq, Repr

/-- The built-in set with a given name. -/
def ofVariant : Variant → InstructionSet
  | .basic => basic
  | .extended => extended

/-- The built-in variant with a given spelling. -/
def Variant.ofText? : String → Option Variant
  | "basic" => some .basic
  | "extended" => some .extended
  | _ => none

end Asm32.InstructionSet
