import Asm32.Instruction.Decoding
import Asm32.InstructionSet.Description

/-!
# Decoded instructions as JSON

`Decoded.toJson` writes a decoded instruction and `Decoded.ofJson?` reads one.
Each operand is an object with a single key, the kind of the operand.
-/

namespace Asm32

/-- A signed number of 64 bits as JSON. -/
def Json.ofInt64 (value : Int64) : Json :=
  .int value.toInt

/-- A decoded operand as JSON. -/
def DecodedOperand.toJson : DecodedOperand → Json
  | .register index => .record [("Register", .ofNat index.toNat)]
  | .immediate value => .record [("Immediate", .ofInt64 value)]
  | .displacement value => .record [("Displacement", .ofInt64 value)]
  | .indexed offset base =>
      .record
        [("Indexed", .record [("offset", .ofInt64 offset), ("base", .ofNat base.toNat)])]

/-- Read a decoded operand. -/
def DecodedOperand.ofJson? (json : Json) : Option DecodedOperand :=
  match json.tagged? with
  | some ("Register", value) => value.word?.map .register
  | some ("Immediate", value) => value.int64?.map .immediate
  | some ("Displacement", value) => value.int64?.map .displacement
  | some ("Indexed", value) =>
      match value.fields? ["offset", "base"] with
      | some [some offset, some base] =>
          offset.int64?.bind fun offset => base.word?.map fun base => .indexed offset base
      | _ => none
  | _ => none

namespace Decoded

/-- A decoded instruction as JSON. -/
def toJson (d : Decoded) : Json :=
  .record
    [("mnemonic", .ofString d.mnemonic), ("opcode", .ofNat d.opcode.toNat),
     ("format", d.format.toJson), ("register_prefix", .ofChar d.registerMark),
     ("operands", .arr (d.operands.map DecodedOperand.toJson))]

/-- Read a decoded instruction. -/
def ofJson? (json : Json) : Option Decoded :=
  match json.fields? ["mnemonic", "opcode", "format", "register_prefix", "operands"] with
  | some [some mnemonic, some opcode, some format, some mark, some operands] => do
      return {
        mnemonic := ← mnemonic.text?
        opcode := ← opcode.word?
        format := ← Format.ofJson? format
        registerMark := ← mark.char?
        operands := ← operands.list? DecodedOperand.ofJson? }
  | _ => none

/-- Read a decoded instruction from JSON text. -/
def parse? (text : String) : Option Decoded :=
  (Json.parse? text).bind ofJson?

end Decoded

end Asm32
