import Asm32.Proofs.Encoding

/-!
# Decoding undoes encoding

The word of an instruction decodes to that instruction, with its registers as
they are written and its numbers cut to the immediate field.  A branch decodes
whatever displacement is written into it later.

`RawOperand.ReadsBack` states what a decoded operand has to do with the source
operand, in terms of the numbers that stand in the source.  It is proved for one
operand (`readsBack_of_reads`) and then along the slots of the instruction.
-/

namespace Asm32

/-- The number in front of a base register, however long it is; none counts as
zero. -/
def writtenOffset? : Option String → Option Int
  | none => some 0
  | some token => Literal.value? token.toList

/-- The decoded operand says what the source operand says: the same register, or
the number as far as the immediate field keeps it. -/
inductive RawOperand.ReadsBack (isa : InstructionSet) : RawOperand → DecodedOperand → Prop where
  | register {token index}
      (hindex : registerNumber? isa.registerMark token = some index.toNat) :
      ReadsBack isa (.plain token) (.register index)
  | immediate {token value residue} (hvalue : Literal.value? token.toList = some value)
      (hresidue : SignedResidue isa.layout.imm.width.toNat value residue.toInt) :
      ReadsBack isa (.plain token) (.immediate residue)
  | indexed {offset base value residue index} (hvalue : writtenOffset? offset = some value)
      (hresidue : SignedResidue isa.layout.imm.width.toNat value residue.toInt)
      (hindex : registerNumber? isa.registerMark base = some index.toNat) :
      ReadsBack isa (.indexed offset base) (.indexed residue index)

theorem parseOffset?_eq_some {offset : Option String} {value : Int64}
    (h : Slot.parseOffset? offset = some value) :
    ∃ n, writtenOffset? offset = some n ∧ value = Int64.ofInt n := by
  cases offset with
  | none =>
      cases h
      exact ⟨0, rfl, rfl⟩
  | some token => exact parseImmediate?_eq_some_iff.1 h

theorem branch_eq_fill (l : Layout) (opcode value : Word) :
    l.opcode.place opcode ||| l.disp.place value = l.fill [(.opcode, opcode), (.disp, value)] := by
  simp [Layout.fill, Layout.field]

theorem names_branch {i : Instruction} (hformat : i.format = .j) (value : Word) :
    [(FieldName.disp, value)].map Prod.fst = i.format.fields := by
  rw [hformat]
  rfl

namespace InstructionSet.Consistent

variable {isa : InstructionSet}

/-- The register field of a slot gives back a register that it could hold. -/
theorem extract_register (h : isa.Consistent) (name : FieldName) {token : String}
    {index word : Word}
    (hread : parseRegister? isa.registerMark (isa.layout.field name) token = some index)
    (hextract : (isa.layout.field name).extract word = index &&& (isa.layout.field name).mask) :
    registerNumber? isa.registerMark token =
      some ((isa.layout.field name).extract word).toNat := by
  obtain ⟨hnumber, hle⟩ := parseRegister?_eq_some_iff.1 hread
  rw [hextract, Field.and_mask_of_le (h.fits name) hle, hnumber]

/-- The immediate field gives back the residue of a number. -/
theorem extract_number (h : isa.Consistent) {word : Word} {value : Int}
    (hextract : isa.layout.imm.extract word =
      lowWord (Int64.ofInt value) &&& isa.layout.imm.mask) :
    SignedResidue isa.layout.imm.width.toNat value
      (isa.layout.imm.extractSigned word).toInt := by
  rw [lowWord_ofInt] at hextract
  exact Field.signedResidue_extractSigned h.fits_imm hextract

/-- An operand whose fields are found in the word reads back. -/
theorem readsBack_of_reads (h : isa.Consistent) {slot : Slot} {raw : RawOperand}
    {operand : Operand} {word : Word} (hreads : Slot.Reads isa slot raw operand)
    (hslot : slot ≠ .label)
    (hparts : ∀ name value, (name, value) ∈ operand.parts →
      (isa.layout.field name).extract word = value &&& (isa.layout.field name).mask) :
    raw.ReadsBack isa (slot.decode isa.layout word) := by
  cases hreads with
  | register hregister =>
      exact .register (h.extract_register _ hregister (hparts _ _ List.mem_cons_self))
  | immediate hvalue =>
      obtain ⟨n, hn, rfl⟩ := parseImmediate?_eq_some_iff.1 hvalue
      exact .immediate hn (h.extract_number (hparts .imm _ List.mem_cons_self))
  | label => exact absurd rfl hslot
  | indexed hoffset hbase =>
      obtain ⟨n, hn, rfl⟩ := parseOffset?_eq_some hoffset
      have himm := hparts .imm _ (List.mem_cons_of_mem _ List.mem_cons_self)
      exact .indexed hn (h.extract_number himm)
        (h.extract_register .rs hbase (hparts .rs _ List.mem_cons_self))

/-- Operands whose fields are found in the word read back slot by slot. -/
theorem forall₂_readsBack (h : isa.Consistent) {slots : List Slot} {raws : List RawOperand}
    {operands : List Operand} {word : Word} (hreads : Slot.ReadsAll isa slots raws operands)
    (hslots : Slot.label ∉ slots)
    (hparts : ∀ name value, (name, value) ∈ operands.flatMap Operand.parts →
      (isa.layout.field name).extract word = value &&& (isa.layout.field name).mask) :
    List.Forall₂ (RawOperand.ReadsBack isa) raws (slots.map (Slot.decode isa.layout word)) := by
  induction hreads with
  | nil => exact .nil
  | cons hhead _ ih =>
      rw [List.mem_cons, not_or] at hslots
      rw [List.flatMap_cons] at hparts
      refine .cons (h.readsBack_of_reads hhead (Ne.symm hslots.1) ?_) (ih hslots.2 ?_)
      · exact fun name value hmem => hparts name value (List.mem_append_left _ hmem)
      · exact fun name value hmem => hparts name value (List.mem_append_right _ hmem)

/-- The displacement field gives back what was put beside the opcode of a
branch. -/
theorem extract_branch (h : isa.Consistent) {i : Instruction} (hi : i ∈ isa.instructions)
    (hformat : i.format = .j) (value : Word) :
    isa.layout.disp.extract
        (isa.layout.opcode.place i.opcode ||| isa.layout.disp.place value) =
      value &&& isa.layout.disp.mask := by
  rw [branch_eq_fill]
  exact h.extract_fill hi (names_branch hformat value) (List.mem_cons_of_mem _ List.mem_cons_self)

/-- The opcode of a branch and its displacement make a word that decodes to the
branch, with the displacement cut to its field. -/
theorem decode?_branch (h : isa.Consistent) {i : Instruction} (hi : i ∈ isa.instructions)
    (hformat : i.format = .j) (x : Int) :
    ∃ residue,
      isa.decode? (isa.layout.opcode.place i.opcode |||
          isa.layout.disp.place (BitVec.ofInt 32 x)) =
        some ⟨i.mnemonic, i.opcode, .j, isa.registerMark, [.displacement residue]⟩ ∧
      SignedResidue isa.layout.disp.width.toNat x residue.toInt := by
  refine ⟨_, ?_, Field.signedResidue_extractSigned h.fits_disp (h.extract_branch hi hformat _)⟩
  rw [branch_eq_fill, h.decode?_fill hi (names_branch hformat _)]
  simp [Instruction.decoded, hformat, Format.slots, Slot.decode]

/-- Patching a bare branch puts the displacement beside the opcode. -/
theorem replace_branch (h : isa.Consistent) {i : Instruction} (hi : i ∈ isa.instructions)
    (hformat : i.format = .j) (value : Word) :
    isa.layout.disp.replace (isa.layout.opcode.place i.opcode) value =
      isa.layout.opcode.place i.opcode ||| isa.layout.disp.place value := by
  apply Field.replace_place_of_disjoint
  have hseparated := h.separated i hi
  rw [hformat, Layout.Separates, List.pairwise_cons] at hseparated
  exact (hseparated.1 .disp (by decide)).symm

end InstructionSet.Consistent

/-- Decoding undoes encoding.  A complete word decodes to its instruction, and
each operand reads back; the word of a branch does so with whatever integer is
written into its displacement. -/
theorem decode_undoes_encode {isa : InstructionSet} (hvalid : isa.validate = .ok ())
    {mnemonic : String} {operands : List RawOperand} {address : Nat} {encoded : Encoded}
    (hencode : isa.encode mnemonic operands address = .ok encoded) :
    ∃ i, isa.lookup? mnemonic = some i ∧
      (encoded.pending = none →
        ∃ d, isa.decode? encoded.word = some d ∧ d.mnemonic = mnemonic ∧ d.opcode = i.opcode ∧
          d.format = i.format ∧ List.Forall₂ (RawOperand.ReadsBack isa) operands d.operands) ∧
      (encoded.pending ≠ none → ∀ x : Int,
        ∃ d residue, isa.decode? (isa.layout.disp.replace encoded.word (BitVec.ofInt 32 x)) =
            some d ∧ d.mnemonic = mnemonic ∧ d.operands = [.displacement residue] ∧
          SignedResidue isa.layout.disp.width.toNat x residue.toInt) := by
  have h := InstructionSet.validate_eq_ok_iff.1 hvalid
  have hstatement : isa.encode (Statement.mnemonic ⟨mnemonic, operands⟩)
    (Statement.operands ⟨mnemonic, operands⟩) address = .ok encoded := hencode
  rcases InstructionSet.encode_cases hstatement with ⟨i, name, hlookup, hformat, _, _, _, rfl⟩ |
    ⟨i, read, hlookup, hformat, hreads, _, rfl⟩
  · obtain ⟨hi, rfl⟩ := InstructionSet.mem_of_lookup? hlookup
    refine ⟨i, hlookup, by simp, fun _ x => ?_⟩
    obtain ⟨residue, hdecode, hresidue⟩ := h.decode?_branch hi hformat x
    rw [h.replace_branch hi hformat]
    exact ⟨_, residue, hdecode, rfl, rfl, hresidue⟩
  · obtain ⟨hi, rfl⟩ := InstructionSet.mem_of_lookup? hlookup
    refine ⟨i, hlookup, fun _ => ?_, by simp⟩
    have hnames := hreads.map_fst_parts
    have hslots := Format.label_not_mem_slots hformat
    rw [Instruction.pack_eq_fill]
    refine ⟨_, h.decode?_fill hi hnames, rfl, rfl, rfl, h.forall₂_readsBack hreads hslots ?_⟩
    intro name value hmem
    exact h.extract_fill hi hnames (List.mem_cons_of_mem _ hmem)

/-- A load with a negative offset reads back as it is written. -/
theorem decode_undoes_encode_load :
    ∃ d, InstructionSet.extended.decode? 0x1812fffc#32 = some d ∧ d.mnemonic = "ld" ∧
      List.Forall₂ (RawOperand.ReadsBack .extended)
        [.plain "r1", .indexed (some "-4") "r2"] d.operands := by
  have hencode : InstructionSet.extended.encode "ld" [.plain "r1", .indexed (some "-4") "r2"] 0 =
      .ok ⟨0x1812fffc#32, none⟩ := rfl
  obtain ⟨_, _, hcomplete, _⟩ :=
    decode_undoes_encode (InstructionSet.validate_ofVariant .extended) hencode
  obtain ⟨d, hdecode, hmnemonic, _, _, hoperands⟩ := hcomplete rfl
  exact ⟨d, hdecode, hmnemonic, hoperands⟩

end Asm32
