import Asm32.Proofs.InstructionRoundTrip
import Asm32.Proofs.Reassembly

/-!
# The words of instructions

`InstructionSet.decode?` accepts a word exactly when some instruction makes it,
and no two words decode to the same instruction (`decode?_exact`).

Both halves go through the word that a decoded instruction stands for.  Without
a branch this is the encoding of its statement, which `Asm32.Proofs.Reassembly`
has.  A branch is its opcode beside the displacement that it decodes to
(`branch_of_decode?`).  In the other direction, what the encoder packs fills the
fields of its format and nothing else, so it decodes (`decodes_of_encode`).
-/

namespace Asm32.InstructionSet

namespace Consistent

variable {isa : InstructionSet} {word : Word} {d : Decoded}

/-- A word that decodes to a branch is the opcode of the branch beside the
displacement it decodes to. -/
theorem branch_of_decode? (h : isa.Consistent) (hdecode : isa.decode? word = some d)
    (hformat : d.format = .j) :
    ∃ i value, isa.lookup? d.mnemonic = some i ∧ i.format = .j ∧
      d.operands = [.displacement value] ∧
      word = isa.layout.opcode.place i.opcode ||| isa.layout.disp.place (lowWord value) := by
  obtain ⟨i, hi, hmnemonic, hj, hword⟩ := h.branch_eq hdecode hformat
  have hdisp := hword _ (Field.toNat_extract_eq_emod h.fits_disp word)
  refine ⟨i, isa.layout.disp.extractSigned word, ?_, hj, ?_, ?_⟩
  · rw [← hmnemonic, h.lookup?_of_mem hi]
  · obtain ⟨i', _, _, rfl⟩ := decode?_eq_some_iff.1 hdecode
    have hj' : i'.format = .j := hformat
    simp [Instruction.decoded, hj', Format.slots, Slot.decode]
  · rw [lowWord_eq_ofInt, hdisp]

/-- Decoding loses nothing of a word. -/
theorem eq_of_decode?_eq (h : isa.Consistent) {other : Word}
    (hdecode : isa.decode? word = some d) (hother : isa.decode? other = some d) :
    word = other := by
  by_cases hformat : d.format = .j
  · obtain ⟨i, value, hlookup, _, hoperands, hword⟩ := h.branch_of_decode? hdecode hformat
    obtain ⟨i', value', hlookup', _, hoperands', hword'⟩ := h.branch_of_decode? hother hformat
    obtain rfl : i = i' := Option.some.inj (hlookup.symm.trans hlookup')
    obtain rfl : value = value' := by simpa using hoperands.symm.trans hoperands'
    rw [hword, hword']
  · have hencode := h.encode_statement hdecode hformat 0
    rw [h.encode_statement hother hformat 0] at hencode
    cases hencode
    rfl

/-- The word of an encoding decodes, with anything in its displacement if it is
that of a branch. -/
theorem decodes_of_encode (h : isa.Consistent) {i : Instruction} {mnemonic : String}
    {raws : List RawOperand} {address : Nat} {encoded : Encoded}
    (hlookup : isa.lookup? mnemonic = some i)
    (hencode : isa.encode mnemonic raws address = .ok encoded) :
    (i.format ≠ .j → (isa.decode? encoded.word).isSome = true) ∧
      (i.format = .j → ∀ value,
        (isa.decode? (isa.layout.disp.replace encoded.word value)).isSome = true) := by
  have hi := (mem_of_lookup? hlookup).1
  have hstatement : isa.encode (Statement.mnemonic ⟨mnemonic, raws⟩)
    (Statement.operands ⟨mnemonic, raws⟩) address = .ok encoded := hencode
  rcases encode_cases hstatement with ⟨i', _, hlookup', hj, _, _, _, rfl⟩ |
    ⟨i', operands, hlookup', hj, hreads, _, rfl⟩
  · obtain rfl : i = i' := Option.some.inj (hlookup.symm.trans hlookup')
    refine ⟨fun hne => absurd hj hne, fun _ value => ?_⟩
    rw [h.replace_branch hi hj, branch_eq_fill, h.decode?_fill hi (names_branch hj value)]
    rfl
  · obtain rfl : i = i' := Option.some.inj (hlookup.symm.trans hlookup')
    refine ⟨fun _ => ?_, fun hj' => absurd hj' hj⟩
    dsimp only
    rw [Instruction.pack_eq_fill, Instruction.parts, h.decode?_fill hi hreads.map_fst_parts]
    rfl

/-- A word that decodes is made by an encoding at any address. -/
theorem exists_encode_of_decode? (h : isa.Consistent) (hdecode : isa.decode? word = some d)
    (address : Nat) :
    ∃ raws encoded i, isa.lookup? d.mnemonic = some i ∧
      isa.encode d.mnemonic raws address = .ok encoded ∧
      (i.format ≠ .j ∧ encoded.word = word ∨
        i.format = .j ∧ ∃ value, isa.layout.disp.replace encoded.word value = word) := by
  by_cases hformat : d.format = .j
  · obtain ⟨i, value, hlookup, hj, _, hword⟩ := h.branch_of_decode? hdecode hformat
    have hi := (mem_of_lookup? hlookup).1
    -- Any label serves: the word of a branch does not depend on it.
    have hencode : isa.encode d.mnemonic [.plain "label"] address =
        .ok ⟨isa.layout.opcode.place i.opcode, some ⟨"label", address⟩⟩ := by
      refine encode_eq_ok_iff.2 ⟨i, [.label "label"], hlookup, ?_, ?_⟩
      · rw [hj]
        exact .cons (.label (by decide)) .nil
      · simp [Instruction.pack, Operand.bits, Operand.label?]
    refine ⟨_, _, i, hlookup, hencode, .inr ⟨hj, lowWord value, ?_⟩⟩
    rw [h.replace_branch hi hj, ← hword]
  · have hencode := h.encode_statement hdecode hformat address
    obtain ⟨i, hopcode, _, rfl⟩ := decode?_eq_some_iff.1 hdecode
    exact ⟨_, _, i, h.lookup?_of_mem (mem_of_byOpcode? hopcode).1, hencode, .inl ⟨hformat, rfl⟩⟩

end Consistent

/-- A word decodes exactly when an instruction makes it: as the word of an
encoding, or for a branch as that word with something written into its
displacement.  Words that decode to the same instruction are the same. -/
theorem decode?_exact {isa : InstructionSet} (hvalid : isa.validate = .ok ()) :
    (∀ (word : Word) (address : Nat),
      (isa.decode? word).isSome = true ↔
        ∃ mnemonic raws encoded i, isa.lookup? mnemonic = some i ∧
          isa.encode mnemonic raws address = .ok encoded ∧
          (i.format ≠ .j ∧ encoded.word = word ∨
            i.format = .j ∧ ∃ value, isa.layout.disp.replace encoded.word value = word)) ∧
      ∀ word other, (isa.decode? word).isSome = true →
        isa.decode? word = isa.decode? other → word = other := by
  have h := validate_eq_ok_iff.1 hvalid
  refine ⟨fun word address => ⟨fun hsome => ?_, ?_⟩, fun word other hsome heq => ?_⟩
  · obtain ⟨d, hdecode⟩ := Option.isSome_iff_exists.1 hsome
    obtain ⟨raws, encoded, i, hmade⟩ := h.exists_encode_of_decode? hdecode address
    exact ⟨d.mnemonic, raws, encoded, i, hmade⟩
  · rintro ⟨mnemonic, raws, encoded, i, hlookup, hencode, hword⟩
    obtain ⟨hcomplete, hbranch⟩ := h.decodes_of_encode hlookup hencode
    rcases hword with ⟨hj, rfl⟩ | ⟨hj, value, rfl⟩
    · exact hcomplete hj
    · exact hbranch hj value
  · obtain ⟨d, hdecode⟩ := Option.isSome_iff_exists.1 hsome
    exact h.eq_of_decode?_eq hdecode (heq ▸ hdecode)

/-- A branch backwards is made by an instruction, and a jump with a bit between
its opcode and its displacement is not. -/
theorem decode?_exact_basic :
    (∃ mnemonic raws encoded i, basic.lookup? mnemonic = some i ∧
        basic.encode mnemonic raws 7 = .ok encoded ∧
        (i.format ≠ .j ∧ encoded.word = 0x4000fffe#32 ∨
          i.format = .j ∧ ∃ value, basic.layout.disp.replace encoded.word value = 0x4000fffe#32)) ∧
      ¬ ∃ mnemonic raws encoded i, basic.lookup? mnemonic = some i ∧
        basic.encode mnemonic raws 7 = .ok encoded ∧
        (i.format ≠ .j ∧ encoded.word = 0x40010000#32 ∨
          i.format = .j ∧
            ∃ value, basic.layout.disp.replace encoded.word value = 0x40010000#32) := by
  have hexact := (decode?_exact (validate_ofVariant .basic)).1
  refine ⟨(hexact _ 7).1 (by decide), fun hmade => ?_⟩
  have hsome := (hexact _ 7).2 hmade
  exact absurd hsome (by decide)

end Asm32.InstructionSet
