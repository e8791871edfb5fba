import Asm32.InstructionSet
import Asm32.Source.Line
import Asm32.Source.Literal

/-!
# Encoding one instruction

`InstructionSet.encode` looks the mnemonic up, checks the number of operands,
reads each operand as its slot demands, from left to right, and packs them into
a word.  A branch leaves its displacement empty and comes with a reference to
the label that is to fill it.
-/

namespace Asm32

/-- Why an instruction cannot be encoded. -/
inductive EncodeError where
  | unknownInstruction (mnemonic : String)
  | arity (mnemonic : String) (expected found : Nat)
  | invalidRegister (text : String)
  | invalidImmediate (text : String)
  | invalidLabel (text : String)
  | invalidIndexedAddress (text : String)
deriving DecidableEq, Repr

/-- The message for an instruction that cannot be encoded. -/
def EncodeError.message : EncodeError → String
  | .unknownInstruction mnemonic => "unrecognized instruction `" ++ mnemonic ++ "'"
  | .arity mnemonic expected found =>
      "invalid number of operands for " ++ mnemonic ++ ": expected " ++ Text.decimal expected ++
        ", found " ++ Text.decimal found
  | .invalidRegister text => "invalid register `" ++ text ++ "'"
  | .invalidImmediate text => "invalid immediate `" ++ text ++ "'"
  | .invalidLabel text => "invalid label `" ++ text ++ "'"
  | .invalidIndexedAddress text => "invalid indexed address `" ++ text ++ "'"

/-- An operand that has been read as its slot demands. -/
inductive Operand where
  /-- A register, to be packed into the named field. -/
  | register (field : FieldName) (index : Word)
  | immediate (value : Int64)
  | label (name : String)
  | indexed (offset : Int64) (base : Word)
deriving DecidableEq, Repr

namespace Operand

/-- The bits an operand contributes to its word.  A label contributes none: its
displacement is known only once all labels are. -/
def bits (layout : Layout) : Operand → Word
  | .register field index => (layout.field field).place index
  | .immediate value => layout.imm.place (lowWord value)
  | .label _ => 0
  | .indexed offset base => layout.rs.place base ||| layout.imm.place (lowWord offset)

/-- The label an operand names. -/
def label? : Operand → Option String
  | .label name => some name
  | _ => none

end Operand

namespace Slot

/-- The fault of an operand that does not fit its slot. -/
def fault (slot : Slot) (text : String) : EncodeError :=
  match slot with
  | .register _ => .invalidRegister text
  | .immediate => .invalidImmediate text
  | .label => .invalidLabel text
  | .indexed => .invalidIndexedAddress text

/-- The number in front of a base register; none counts as zero. -/
def parseOffset? : Option String → Option Int64
  | none => some 0
  | some token => parseImmediate? token

/-- Read an operand as a slot demands. -/
def read? (isa : InstructionSet) : Slot → RawOperand → Option Operand
  | .register field, .plain word =>
      (parseRegister? isa.registerMark (isa.layout.field field) word).map (.register field)
  | .immediate, .plain word => (parseImmediate? word).map .immediate
  | .label, .plain word => if isIdentifier word then some (.label word) else none
  | .indexed, .indexed offset base =>
      (parseOffset? offset).bind fun value =>
        (parseRegister? isa.registerMark isa.layout.rs base).map (.indexed value)
  | _, _ => none

/-- Read an operand, or blame it with its own text. -/
def read (isa : InstructionSet) (slot : Slot) (raw : RawOperand) : Except EncodeError Operand :=
  match slot.read? isa raw with
  | some operand => .ok operand
  | none => .error (slot.fault raw.text)

/-- Read operands slot by slot; the leftmost fault wins. -/
def readAll (isa : InstructionSet) : List Slot → List RawOperand → Except EncodeError (List Operand)
  | slot :: slots, raw :: raws =>
      match slot.read isa raw with
      | .error e => .error e
      | .ok operand =>
          match readAll isa slots raws with
          | .error e => .error e
          | .ok operands => .ok (operand :: operands)
  | _, _ => .ok []

end Slot

/-- A word whose displacement waits for the address of a label. -/
structure Reference where
  label : String
  /-- The address of the waiting word. -/
  address : Nat
deriving DecidableEq, Repr

/-- An encoded instruction. -/
structure Encoded where
  word : Word
  pending : Option Reference
deriving DecidableEq, Repr

/-- The word of an instruction with the given operands. -/
def Instruction.pack (layout : Layout) (i : Instruction) (operands : List Operand) : Word :=
  (operands.map (Operand.bits layout)).foldl (· ||| ·) (layout.opcode.place i.opcode)

/-- Encode the instruction that stands at a given address. -/
def InstructionSet.encode (isa : InstructionSet) (mnemonic : String) (operands : List RawOperand)
    (address : Nat) : Except EncodeError Encoded :=
  match isa.lookup? mnemonic with
  | none => .error (.unknownInstruction mnemonic)
  | some i =>
      if operands.length = i.format.arity then
        match Slot.readAll isa i.format.slots operands with
        | .error e => .error e
        | .ok read =>
            .ok
              { word := i.pack isa.layout read
                pending := (read.findSome? Operand.label?).map fun label => ⟨label, address⟩ }
      else
        .error (.arity mnemonic i.format.arity operands.length)

end Asm32
