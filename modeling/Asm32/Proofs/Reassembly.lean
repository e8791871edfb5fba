import Asm32.Proofs.LineRoundTrip
import Asm32.Proofs.Numerals

/-!
# Decoded words as source

A word that decodes can be written down and encoded again, and comes back bit by
bit.  For all formats but the branch this is the statement of the decoded
instruction (`isWritable_statement`, `encode_statement`).  A branch is written
with a label, and the word comes back when the label is at the right distance
(`branch_eq`).
-/

namespace Asm32

/-! ## Written numbers and registers are words -/

theorem isWordChar_of_isDigit {c : Char} (h : c.isDigit = true) : isWordChar c = true := by
  simp [isWordChar, Char.isAlphanum, h]

theorem all_isWordChar_decimal (n : Nat) : (Text.decimal n).toList.all isWordChar = true := by
  rw [List.all_eq_true]
  exact fun c hc => isWordChar_of_isDigit (Text.isDigit_of_mem_decimal hc)

theorem isEmpty_decimal (n : Nat) : (Text.decimal n).toList.isEmpty = false := by
  rw [Text.toList_decimal, List.isEmpty_eq_false_iff]
  exact Nat.toDigits_ne_nil

/-- A number can be the name of a label. -/
theorem isIdentifier_decimal (n : Nat) : isIdentifier (Text.decimal n) = true := by
  rw [isIdentifier, all_isWordChar_decimal, isEmpty_decimal]
  rfl

theorem isWord_decimalInt (n : Int) : Token.isWord (Text.decimalInt n) = true := by
  cases n with
  | ofNat n => exact Token.isWord_of_isIdentifier (isIdentifier_decimal n)
  | negSucc n =>
      rw [Token.isWord, Text.toList_decimalInt_negSucc]
      simp only [all_isWordChar_decimal, isEmpty_decimal]
      rfl

theorem isWord_registerText {mark : Char} (hmark : InstructionSet.isRegisterMark mark = true)
    (index : Word) : Token.isWord (registerText mark index) = true := by
  have hletter : isWordChar mark = true := by
    have halpha : mark.isAlpha = true := hmark
    simp [isWordChar, Char.isAlphanum, halpha]
  rw [Token.isWord, toList_registerText]
  simp only [all_isWordChar_decimal, hletter]
  rfl

/-! ## Operands -/

/-- An offset that is left out is zero. -/
theorem parseOffset?_raw (offset : Int64) :
    Slot.parseOffset? (if offset = 0 then none else some (Text.decimalInt offset.toInt)) =
      some offset := by
  split
  next hzero => rw [hzero, Slot.parseOffset?]
  next => exact parseImmediate?_decimalInt offset

theorem Format.indexed_mem_slots {format : Format} (h : Slot.indexed ∈ format.slots) :
    format = .mem := by
  cases format <;> first | rfl | exact absurd h (by decide)

/-- A decoded mnemonic is one of the table. -/
theorem InstructionSet.isIdentifier_of_decode? {isa : InstructionSet} {word : Word} {d : Decoded}
    (hnames : ∀ i ∈ isa.instructions, isIdentifier i.mnemonic = true)
    (hdecode : isa.decode? word = some d) : isIdentifier d.mnemonic = true := by
  obtain ⟨i, hopcode, _, rfl⟩ := decode?_eq_some_iff.1 hdecode
  exact hnames i (mem_of_byOpcode? hopcode).1

namespace InstructionSet.Consistent

variable {isa : InstructionSet} {word : Word} {d : Decoded}

/-- A field gives a register that it can hold. -/
theorem parseRegister?_extract (h : isa.Consistent) (name : FieldName) (word : Word) :
    parseRegister? isa.registerMark (isa.layout.field name)
        (registerText isa.registerMark ((isa.layout.field name).extract word)) =
      some ((isa.layout.field name).extract word) := by
  have hlt := Field.toNat_extract_lt (h.fits name) word
  rw [parseRegister?_eq_some_iff, Field.maxValue, Field.toNat_mask (h.fits name)]
  exact ⟨registerNumber?_registerText _ _, by omega⟩

/-- What a slot decodes to can be written. -/
theorem isWritable_raw (h : isa.Consistent) {slot : Slot} (hslot : slot ≠ .label)
    (hindexed : slot = .indexed → isa.indexed = true) (word : Word) :
    ((slot.decode isa.layout word).raw isa.registerMark).isWritable isa.indexed = true := by
  cases slot with
  | register field => exact isWord_registerText h.registerMark _
  | immediate => exact isWord_decimalInt _
  | label => exact absurd rfl hslot
  | indexed =>
      simp only [Slot.decode, DecodedOperand.raw, RawOperand.isWritable, hindexed rfl,
        isWord_registerText h.registerMark, Bool.true_and, Bool.and_true]
      split
      · rfl
      · exact isWord_decimalInt _

/-- What a slot decodes to is read again, and fills the same fields. -/
theorem reads_raw (h : isa.Consistent) {slot : Slot} (hslot : slot ≠ .label) (word : Word) :
    ∃ operand, Slot.Reads isa slot ((slot.decode isa.layout word).raw isa.registerMark) operand ∧
      isa.layout.fill operand.parts = isa.layout.fill (isa.layout.fieldsOf slot.fields word) := by
  have himm := Field.place_lowWord_extractSigned h.fits_imm word
  cases slot with
  | register field =>
      exact ⟨_, .register (h.parseRegister?_extract field word), rfl⟩
  | immediate =>
      refine ⟨_, .immediate (parseImmediate?_decimalInt _), ?_⟩
      simp [Operand.parts, Layout.fieldsOf, Slot.fields, Layout.fill, Layout.field, himm]
  | label => exact absurd rfl hslot
  | indexed =>
      refine ⟨_, .indexed (parseOffset?_raw _) (h.parseRegister?_extract .rs word), ?_⟩
      simp [Operand.parts, Layout.fieldsOf, Slot.fields, Layout.fill, Layout.field, himm]

/-- The operands of a word are read again, and fill the same fields. -/
theorem readsAll_raw (h : isa.Consistent) {slots : List Slot} (hslots : Slot.label ∉ slots)
    (word : Word) :
    ∃ operands,
      Slot.ReadsAll isa slots
        ((slots.map (Slot.decode isa.layout word)).map (DecodedOperand.raw isa.registerMark))
        operands ∧
      isa.layout.fill (operands.flatMap Operand.parts) =
        isa.layout.fill (isa.layout.fieldsOf (slots.flatMap Slot.fields) word) := by
  induction slots with
  | nil => exact ⟨[], .nil, rfl⟩
  | cons slot rest ih =>
      rw [List.mem_cons, not_or] at hslots
      obtain ⟨operand, hread, hfill⟩ := h.reads_raw (Ne.symm hslots.1) word
      obtain ⟨operands, hreads, hfills⟩ := ih hslots.2
      refine ⟨operand :: operands, .cons hread hreads, ?_⟩
      rw [List.flatMap_cons, List.flatMap_cons, Layout.fieldsOf, List.map_append,
        Layout.fill_append, Layout.fill_append, hfill, hfills]
      rfl

/-! ## Words -/

/-- A word that decodes, but not to a branch, is the encoding of the statement
it decodes to. -/
theorem encode_statement (h : isa.Consistent) (hdecode : isa.decode? word = some d)
    (hformat : d.format ≠ .j) (address : Nat) :
    isa.encode d.statement.mnemonic d.statement.operands address = .ok ⟨word, none⟩ := by
  obtain ⟨i, hopcode, hstray, rfl⟩ := decode?_eq_some_iff.1 hdecode
  obtain ⟨hi, hi'⟩ := mem_of_byOpcode? hopcode
  have hslots : Slot.label ∉ i.format.slots := Format.label_not_mem_slots hformat
  obtain ⟨operands, hreads, hfill⟩ := h.readsAll_raw hslots word
  refine encode_eq_ok_iff.2 ⟨i, operands, h.lookup?_of_mem hi, hreads, ?_⟩
  have hword : i.pack isa.layout operands = word := by
    rw [Instruction.pack_eq_fill, Instruction.parts, Layout.fill, hfill, hi']
    exact Layout.fill_fieldsOf hstray
  rw [hword, hreads.findSome?_label? hslots, Option.map_none]

/-- The statement of such a word is no branch. -/
theorem branchLabel?_statement (h : isa.Consistent) (hdecode : isa.decode? word = some d)
    (hformat : d.format ≠ .j) : d.statement.branchLabel? isa = none := by
  have hpending := pending_of_encode (h.encode_statement hdecode hformat 0)
  rwa [eq_comm, Option.map_eq_none_iff] at hpending

/-- The statement of a decoded word can be written if its mnemonic is a name. -/
theorem isWritable_statement_of_isIdentifier (h : isa.Consistent)
    (hname : isIdentifier d.mnemonic = true) (hdecode : isa.decode? word = some d)
    (hformat : d.format ≠ .j) : d.statement.isWritable isa.indexed = true := by
  obtain ⟨i, hopcode, _, rfl⟩ := decode?_eq_some_iff.1 hdecode
  have hi := (mem_of_byOpcode? hopcode).1
  rw [Statement.isWritable, Bool.and_eq_true, List.all_eq_true]
  refine ⟨hname, ?_⟩
  intro raw hraw
  simp only [Decoded.statement, Instruction.decoded, List.map_map, List.mem_map] at hraw
  obtain ⟨slot, hslot, rfl⟩ := hraw
  apply h.isWritable_raw
  · intro hlabel
    subst hlabel
    exact hformat (Format.label_mem_slots_iff.1 hslot)
  · intro hindexed
    subst hindexed
    exact h.indexed i hi (Format.indexed_mem_slots hslot)

theorem isWritable_statement (h : isa.Consistent)
    (hnames : ∀ i ∈ isa.instructions, isIdentifier i.mnemonic = true)
    (hdecode : isa.decode? word = some d) (hformat : d.format ≠ .j) :
    d.statement.isWritable isa.indexed = true :=
  h.isWritable_statement_of_isIdentifier (isIdentifier_of_decode? hnames hdecode) hdecode hformat

/-- A word that decodes to a branch is its opcode beside any displacement that
agrees with its field. -/
theorem branch_eq (h : isa.Consistent) (hdecode : isa.decode? word = some d)
    (hformat : d.format = .j) :
    ∃ i ∈ isa.instructions, i.mnemonic = d.mnemonic ∧ i.format = .j ∧ ∀ x : Int,
      ((isa.layout.disp.extract word).toNat : Int) = x % 2 ^ isa.layout.disp.width.toNat →
      isa.layout.opcode.place i.opcode ||| isa.layout.disp.place (BitVec.ofInt 32 x) = word := by
  obtain ⟨i, hopcode, hstray, rfl⟩ := decode?_eq_some_iff.1 hdecode
  obtain ⟨hi, hi'⟩ := mem_of_byOpcode? hopcode
  refine ⟨i, hi, rfl, hformat, fun x hx => ?_⟩
  have hfields := Layout.fill_fieldsOf hstray
  have hj : i.format = .j := hformat
  rw [hj] at hfields
  rw [Field.place_ofInt_eq h.fits_disp hx, hi']
  simpa [Layout.fieldsOf, Format.fields, Format.slots, Slot.fields, Layout.fill,
    Layout.field] using hfields

end InstructionSet.Consistent

end Asm32
