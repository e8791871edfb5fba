import Asm32.Proofs.AssemblerRange
import Asm32.Proofs.Readings

/-!
# Instructions that can be written

`InstructionSet.Writes` says that a source assembles to a single word with a
given mnemonic.  Validation looks at markers, fields, opcodes and the indexed
format, but not at how a mnemonic is spelled, and a source can only name what is
an identifier.  So of a validated set exactly the instructions whose mnemonic is
an identifier can be written (`writes_iff_isIdentifier`).

* A statement is never read with another mnemonic, and its word decodes to the
  mnemonic that it is read with (`isIdentifier_of_assemble`).
* For an instruction with a name, the word with zeros in all operands is in the
  range of the assembler (`inRange_zeroWord`).  Its branch goes to the end of the
  program, which every displacement field can reach.
-/

namespace Asm32

/-- Some source assembles to one word, and the word decodes to the mnemonic. -/
def InstructionSet.Writes (isa : InstructionSet) (mnemonic : String) : Prop :=
  ∃ source image word d, assemble isa source = .ok image ∧ image.words = [word] ∧
    isa.decode? word = some d ∧ d.mnemonic = mnemonic

variable {isa : InstructionSet}

/-! ## Assembled mnemonics are names -/

namespace InstructionSet.Consistent

/-- The word of a statement decodes to its mnemonic, wherever its label is. -/
theorem decode?_patchedWord (h : isa.Consistent) (p : Code) {k : Nat} {s : Statement}
    {encoded : Encoded} (hencode : isa.encode s.mnemonic s.operands k = .ok encoded) :
    ∃ d, isa.decode? (p.patchedWord isa k s) = some d ∧ d.mnemonic = s.mnemonic := by
  rw [h.patchedWord_eq_resolvedWord p hencode]
  rcases encode_cases hencode with ⟨i, name, hlookup, hformat, _, _, hlabel, rfl⟩ |
    ⟨i, operands, hlookup, hformat, hreads, hlabel, rfl⟩
  · obtain ⟨hi, hmnemonic⟩ := mem_of_lookup? hlookup
    simp only [Code.resolvedWord, hlookup, hlabel]
    obtain ⟨_, hdecode, _⟩ :=
      h.decode?_branch hi hformat (((p.address? name).getD 0 : Int) - (k + 1))
    exact ⟨_, hdecode, hmnemonic⟩
  · obtain ⟨hi, hmnemonic⟩ := mem_of_lookup? hlookup
    simp only [Code.resolvedWord, hlookup, hlabel, encodedWord, hencode]
    rw [Instruction.pack_eq_fill]
    exact ⟨_, h.decode?_fill hi hreads.map_fst_parts, hmnemonic⟩

/-- Assembled words decode to mnemonics that are names. -/
theorem isIdentifier_of_assemble (h : isa.Consistent) {source : String} {image : Image}
    (hassemble : assemble isa source = .ok image) {word : Word} (hword : word ∈ image.words)
    {d : Decoded} (hdecode : isa.decode? word = some d) : isIdentifier d.mnemonic = true := by
  obtain ⟨hfault, _, hwords, _⟩ := assemble_eq_ok_iff.1 hassemble
  rw [hwords] at hword
  obtain ⟨k, hk, rfl⟩ := List.mem_mapIdx.1 hword
  obtain ⟨encoded, hencode⟩ := encode_of_no_fault hfault (List.getElem?_eq_getElem hk)
  obtain ⟨d', hdecode', hmnemonic⟩ := h.decode?_patchedWord (Code.ofSource isa source) hencode
  obtain rfl := Option.some.inj (hdecode'.symm.trans hdecode)
  rw [hmnemonic]
  exact Code.isIdentifier_of_mem_statements (List.getElem_mem hk)

theorem isIdentifier_of_writes (h : isa.Consistent) {mnemonic : String}
    (hwrites : isa.Writes mnemonic) : isIdentifier mnemonic = true := by
  obtain ⟨source, image, word, d, hassemble, hwords, hdecode, rfl⟩ := hwrites
  exact h.isIdentifier_of_assemble hassemble (by simp [hwords]) hdecode

end InstructionSet.Consistent

/-! ## Instructions with a name are written -/

/-- The word of an instruction whose operands are all zero. -/
def Instruction.zeroWord (isa : InstructionSet) (i : Instruction) : Word :=
  isa.layout.fill ((.opcode, i.opcode) :: i.format.fields.map fun name => (name, 0))

namespace InstructionSet.Consistent

variable {i : Instruction}

theorem decode?_zeroWord (h : isa.Consistent) (hi : i ∈ isa.instructions) :
    isa.decode? (i.zeroWord isa) = some (i.decoded isa (i.zeroWord isa)) :=
  h.decode?_fill hi (by simp [Function.comp_def])

/-- The word alone is a program: if it is a branch, it goes to the end. -/
theorem inRange_zeroWord (h : isa.Consistent) (hi : i ∈ isa.instructions) :
    InRange isa [i.zeroWord isa] where
  fits := by
    have hmemory : isa.memoryWords.toNat ≠ 0 := fun hzero =>
      h.memory (UInt64.toNat_inj.1 hzero)
    rw [List.length_singleton]
    omega
  decodes := by simp [h.decode?_zeroWord hi]
  targets := by
    intro k word d hword hdecode hformat
    obtain ⟨rfl, rfl⟩ : k = 0 ∧ i.zeroWord isa = word := by
      simpa [List.getElem?_singleton] using hword
    rw [h.decode?_zeroWord hi, Option.some.injEq] at hdecode
    subst hdecode
    have hj : i.format = .j := hformat
    have hpart : (FieldName.disp, (0 : Word)) ∈
        (.opcode, i.opcode) :: i.format.fields.map fun name => (name, 0) := by
      simp [hj, Format.fields, Format.slots, Slot.fields]
    have hzero : isa.layout.disp.extract (i.zeroWord isa) = 0 &&& isa.layout.disp.mask :=
      h.extract_fill hi (by simp [Function.comp_def]) hpart
    exact ⟨1, by simp, by simp [hzero]⟩

theorem writes_of_isIdentifier (h : isa.Consistent) (hi : i ∈ isa.instructions)
    (hname : isIdentifier i.mnemonic = true) : isa.Writes i.mnemonic := by
  have hdecode := h.decode?_zeroWord hi
  have hnames : ∀ word ∈ [i.zeroWord isa], ∀ d, isa.decode? word = some d →
      isIdentifier d.mnemonic = true := by
    intro word hword d hdecode'
    obtain rfl := List.mem_singleton.1 hword
    obtain rfl := Option.some.inj (hdecode.symm.trans hdecode')
    exact hname
  obtain ⟨source, image, hassemble, hwords⟩ :=
    exists_assemble_of_isIdentifier h (h.inRange_zeroWord hi) hnames
  exact ⟨source, image, _, _, hassemble, hwords, hdecode, rfl⟩

end InstructionSet.Consistent

/-- The instructions of a validated set that a source can hold are those whose
mnemonic is an identifier. -/
theorem writes_iff_isIdentifier (hvalid : isa.validate = .ok ()) {i : Instruction}
    (hi : i ∈ isa.instructions) : isa.Writes i.mnemonic ↔ isIdentifier i.mnemonic = true := by
  have h := InstructionSet.validate_eq_ok_iff.1 hvalid
  exact ⟨h.isIdentifier_of_writes, h.writes_of_isIdentifier hi⟩

/-- An instruction set with a dot in one of its mnemonics. -/
def InstructionSet.dotted : InstructionSet :=
  { extended with instructions := [⟨"b.eq", 0x21, .trap⟩, ⟨"b_eq", 0x22, .j⟩] }

/-- It is validated, but only the instruction with the other spelling can be
written. -/
theorem writes_iff_isIdentifier_dotted :
    InstructionSet.dotted.validate = .ok () ∧ InstructionSet.dotted.Writes "b_eq" ∧
      ¬InstructionSet.dotted.Writes "b.eq" := by
  have hvalid : InstructionSet.dotted.validate = .ok () := rfl
  have hunderscore : ⟨"b_eq", 0x22, .j⟩ ∈ InstructionSet.dotted.instructions := by decide
  have hdot : ⟨"b.eq", 0x21, .trap⟩ ∈ InstructionSet.dotted.instructions := by decide
  refine ⟨hvalid, (writes_iff_isIdentifier hvalid hunderscore).2 (by decide), fun hwrites => ?_⟩
  have hname := (writes_iff_isIdentifier hvalid hdot).1 hwrites
  exact absurd hname (by decide)

/-- Validation does not make sure that every instruction can be written. -/
theorem exists_not_writes :
    ∃ isa : InstructionSet, isa.validate = .ok () ∧
      ∃ i ∈ isa.instructions, ¬isa.Writes i.mnemonic := by
  have hvalid : InstructionSet.dotted.validate = .ok () := rfl
  refine ⟨.dotted, hvalid, ⟨"b.eq", 0x21, .trap⟩, by decide, fun hwrites => ?_⟩
  have hname := (InstructionSet.validate_eq_ok_iff.1 hvalid).isIdentifier_of_writes hwrites
  exact absurd hname (by decide)

end Asm32
