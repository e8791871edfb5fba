import Asm32.InstructionSet
import Asm32.Source.Line
import Asm32.Text.Numeral

/-!
# Decoding one word

`InstructionSet.decode?` reads a word back into an instruction with operands.
A word with an unknown opcode, or with a bit set outside the fields of its
format, is no instruction.  `Decoded.text` gives source syntax, with branches
as signed displacements, and `Decoded.branchTarget?` the address a branch goes
to.
-/

namespace Asm32

/-- An operand read back from a word. -/
inductive DecodedOperand where
  | register (index : Word)
  | immediate (value : Int64)
  /-- A distance from the word behind the branch. -/
  | displacement (value : Int64)
  | indexed (offset : Int64) (base : Word)
deriving DecidableEq, Repr

/-- An instruction read back from a word. -/
structure Decoded where
  mnemonic : String
  opcode : Word
  format : Format
  registerMark : Char
  operands : List DecodedOperand
deriving DecidableEq, Repr

/-- Read the operand of a slot from a word. -/
def Slot.decode (layout : Layout) (word : Word) : Slot → DecodedOperand
  | .register field => .register ((layout.field field).extract word)
  | .immediate => .immediate (layout.imm.extractSigned word)
  | .label => .displacement (layout.disp.extractSigned word)
  | .indexed => .indexed (layout.imm.extractSigned word) (layout.rs.extract word)

/-- Read a word back. -/
def InstructionSet.decode? (isa : InstructionSet) (word : Word) : Option Decoded :=
  match isa.byOpcode? (isa.layout.opcode.extract word) with
  | none => none
  | some i =>
      if word &&& ~~~isa.layout.usedMask i.format = 0 then
        some
          { mnemonic := i.mnemonic
            opcode := i.opcode
            format := i.format
            registerMark := isa.registerMark
            operands := i.format.slots.map (Slot.decode isa.layout word) }
      else
        none

/-- The name of a register. -/
def registerText (mark : Char) (index : Word) : String :=
  mark.toString ++ Text.decimal index.toNat

/-- A decoded operand in source syntax.  A zero offset is left out. -/
def DecodedOperand.raw (mark : Char) : DecodedOperand → RawOperand
  | .register index => .plain (registerText mark index)
  | .immediate value => .plain (Text.decimalInt value.toInt)
  | .displacement value => .plain (Text.signedDecimal value.toInt)
  | .indexed offset base =>
      .indexed (if offset = 0 then none else some (Text.decimalInt offset.toInt))
        (registerText mark base)

namespace Decoded

/-- A decoded instruction as a statement. -/
def statement (d : Decoded) : Statement :=
  ⟨d.mnemonic, d.operands.map (DecodedOperand.raw d.registerMark)⟩

/-- A decoded instruction in source syntax. -/
def text (d : Decoded) : String :=
  d.statement.render

/-- Where a branch at a given address goes. -/
def branchTarget? (d : Decoded) (address : Nat) : Option Int64 :=
  d.operands.findSome? fun
    | .displacement value => some (Int64.ofNat address + 1 + value)
    | _ => none

end Decoded

end Asm32
