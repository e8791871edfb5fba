import Asm32.Field
import Asm32.Format

/-!
# Word layouts

Where each named field lies in the word.  One layout serves every format of an
instruction set, so two fields may share bits as long as no format uses both;
`Layout.overlap?` finds the first two fields of one format that do.
-/

namespace Asm32

/-- The position of each field in the word. -/
structure Layout where
  opcode : Field
  rd : Field
  rs : Field
  rt : Field
  imm : Field
  disp : Field
deriving DecidableEq, Repr

namespace Layout

/-- The field of a given name. -/
def field (l : Layout) : FieldName → Field
  | .opcode => l.opcode
  | .rd => l.rd
  | .rs => l.rs
  | .rt => l.rt
  | .imm => l.imm
  | .disp => l.disp

/-- The first two of the given fields that share a bit.  Pairs are tried in
order of their first field, then of their second. -/
def firstOverlap? (l : Layout) : List FieldName → Option (FieldName × FieldName)
  | [] => none
  | a :: rest =>
      match rest.find? fun b => (l.field a).overlaps (l.field b) with
      | some b => some (a, b)
      | none => l.firstOverlap? rest

/-- The first two fields that share a bit in words of a given format. -/
def overlap? (l : Layout) (format : Format) : Option (FieldName × FieldName) :=
  l.firstOverlap? (.opcode :: format.fields)

/-- The bits that a word of a given format may have set. -/
def usedMask (l : Layout) (format : Format) : Word :=
  (format.fields.map fun name => (l.field name).maskInPlace).foldl (· ||| ·) l.opcode.maskInPlace

end Layout

end Asm32
