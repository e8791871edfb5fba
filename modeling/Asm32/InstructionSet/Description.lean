import Asm32.InstructionSet.FeatureText
import Asm32.InstructionSet.Validation
import Asm32.Json.Reader
import Asm32.Json.Shape
import Asm32.Json.Writer

/-!
# Descriptions of instruction sets

An instruction set as JSON text.  `InstructionSet.toJson` writes one, and
`InstructionSet.ofDescription` reads one and checks that it is consistent.
Features and memory size may be left out.
-/

namespace Asm32

/-- Why a description gives no instruction set. -/
inductive DescriptionError where
  /-- The text is not JSON of the right shape. -/
  | malformed
  /-- The instruction set does not pass the check. -/
  | checkFailed (cause : CheckFailure)
deriving DecidableEq, Repr

/-- The message for a description that gives no instruction set. -/
def DescriptionError.message : DescriptionError → String
  | .malformed => "malformed instruction set description"
  | .checkFailed cause => cause.message

/-- A format as JSON. -/
def Format.toJson (f : Format) : Json :=
  .ofString f.tag

/-- Read a format: its tag, or an object with the tag as its only key and no
value. -/
def Format.ofJson? (json : Json) : Option Format :=
  match json.tagged? with
  | some (tag, .null) => ofTag? tag
  | some _ => none
  | none => json.text?.bind ofTag?

/-- Read a format from JSON text. -/
def Format.parse? (text : String) : Option Format :=
  (Json.parse? text).bind ofJson?

/-- A field as JSON. -/
def Field.toJson (f : Field) : Json :=
  .record [("shift", .ofNat f.shift.toNat), ("width", .ofNat f.width.toNat)]

/-- Read a field. -/
def Field.ofJson? (json : Json) : Option Field :=
  match json.fields? ["shift", "width"] with
  | some [some shift, some width] =>
      (shift.natBelow? UInt32.size).bind fun shift =>
        (width.natBelow? UInt32.size).map fun width => ⟨.ofNat shift, .ofNat width⟩
  | _ => none

/-- A layout as JSON. -/
def Layout.toJson (l : Layout) : Json :=
  .record (FieldName.all.map fun name => (name.text, (l.field name).toJson))

/-- Read a layout. -/
def Layout.ofJson? (json : Json) : Option Layout :=
  match json.fields? (FieldName.all.map FieldName.text) with
  | some [some opcode, some rd, some rs, some rt, some imm, some disp] => do
      return {
        opcode := ← Field.ofJson? opcode
        rd := ← Field.ofJson? rd
        rs := ← Field.ofJson? rs
        rt := ← Field.ofJson? rt
        imm := ← Field.ofJson? imm
        disp := ← Field.ofJson? disp }
  | _ => none

/-- A row of the instruction table as JSON. -/
def Instruction.toJson (i : Instruction) : Json :=
  .record
    [("mnemonic", .ofString i.mnemonic), ("opcode", .ofNat i.opcode.toNat),
     ("format", i.format.toJson)]

/-- Read a row of the instruction table. -/
def Instruction.ofJson? (json : Json) : Option Instruction :=
  match json.fields? ["mnemonic", "opcode", "format"] with
  | some [some mnemonic, some opcode, some format] => do
      return {
        mnemonic := ← mnemonic.text?
        opcode := ← opcode.word?
        format := ← Format.ofJson? format }
  | _ => none

/-- Features as JSON. -/
def Features.toJson (f : Features) : Json :=
  .ofString f.text

/-- Read features. -/
def Features.ofJson? (json : Json) : Option Features :=
  json.text?.bind fun text => Features.parse? text.toList

namespace InstructionSet

/-- The keys of a description, in the order in which they are written. -/
def keys : List String :=
  ["name", "comment", "register_prefix", "features", "memory_words", "layout", "opcodes"]

/-- An instruction set as JSON. -/
def toJson (isa : InstructionSet) : Json :=
  .record
    [("name", .ofString isa.name), ("comment", .ofChar isa.comment),
     ("register_prefix", .ofChar isa.registerMark), ("features", isa.features.toJson),
     ("memory_words", .ofNat isa.memoryWords.toNat), ("layout", isa.layout.toJson),
     ("opcodes", .arr (isa.instructions.map Instruction.toJson))]

/-- Read an instruction set, whether it is consistent or not. -/
def ofJson? (json : Json) : Option InstructionSet :=
  match json.fields? keys with
  | some [some name, some comment, some mark, features, memory, some layout, some table] => do
      return {
        name := ← name.text?
        comment := ← comment.char?
        registerMark := ← mark.char?
        features := ← features.elim (some .empty) Features.ofJson?
        memoryWords := ← memory.elim (some defaultMemoryWords) Json.uint64?
        layout := ← Layout.ofJson? layout
        instructions := ← table.list? Instruction.ofJson? }
  | _ => none

/-- The description of an instruction set, without blanks. -/
def description (isa : InstructionSet) : String :=
  isa.toJson.compact

/-- Read a description and check that it is consistent. -/
def ofDescription (text : String) : Except DescriptionError InstructionSet :=
  match (Json.parse? text).bind ofJson? with
  | none => .error .malformed
  | some isa =>
      match isa.validate with
      | .ok () => .ok isa
      | .error cause => .error (.checkFailed cause)

end InstructionSet

end Asm32
