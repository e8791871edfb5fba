import Asm32.Proofs.Linking

/-!
# Runs that cannot get stuck

Two places of the assembler look as if they could find themselves without an
answer.  Packing may be handed operands that its format does not take, and
patching may be handed an address where there is no word.  Neither happens.

* `InstructionSet.encodeByFormat?` is the encoder with the kinds, the fields and
  the packing of operands written down format by format, apart from each other.
  It has no answer where the three do not line up; `encodeByFormat?_eq` says that
  they always do, and that the answer is that of `InstructionSet.encode`.
* `Scan.Sound` is what a scan keeps true after every line.  It follows from
  `Scan.Describes`, which the scan already carries from line to line.
-/

namespace Asm32

/-! ## Packing, format by format -/

/-- What an operand is read as, without the field that it fills. -/
inductive OperandKind where
  | register
  | immediate
  | label
  | indexed
deriving DecidableEq, Repr

/-- The slot of an operand whose leftmost field is the given one. -/
def OperandKind.slot : OperandKind → FieldName → Slot
  | .register, field => .register field
  | .immediate, _ => .immediate
  | .label, _ => .label
  | .indexed, _ => .indexed

namespace Format

/-- The kinds of the operands of a format, in source order. -/
def kinds : Format → List OperandKind
  | .rrr => [.register, .register, .register]
  | .rr => [.register, .register]
  | .rri => [.register, .register, .immediate]
  | .ri => [.register, .immediate]
  | .j => [.label]
  | .mem => [.register, .indexed]
  | .trap => [.immediate]

/-- The fields that a format packs besides the opcode. -/
def packedFields : Format → List FieldName
  | .rrr => [.rd, .rs, .rt]
  | .rr => [.rs, .rt]
  | .rri => [.rd, .rs, .imm]
  | .ri => [.rs, .imm]
  | .j => [.disp]
  | .mem => [.rd, .rs, .imm]
  | .trap => [.imm]

/-- The bits that the operands of a format contribute, and the label among them.
Each register goes where its position says.  Operands that the format does not
take have no bits. -/
def packed? (l : Layout) : Format → List Operand → Option (Word × Option String)
  | .rrr, [.register _ rd, .register _ rs, .register _ rt] =>
      some (l.rd.place rd ||| l.rs.place rs ||| l.rt.place rt, none)
  | .rr, [.register _ rs, .register _ rt] =>
      some (l.rs.place rs ||| l.rt.place rt, none)
  | .rri, [.register _ rd, .register _ rs, .immediate value] =>
      some (l.rd.place rd ||| l.rs.place rs ||| l.imm.place (lowWord value), none)
  | .ri, [.register _ rs, .immediate value] =>
      some (l.rs.place rs ||| l.imm.place (lowWord value), none)
  | .j, [.label name] =>
      some (0, some name)
  | .mem, [.register _ rd, .indexed offset base] =>
      some (l.rd.place rd ||| l.rs.place base ||| l.imm.place (lowWord offset), none)
  | .trap, [.immediate value] =>
      some (l.imm.place (lowWord value), none)
  | _, _ => none

theorem length_kinds (format : Format) : format.kinds.length = format.arity := by
  cases format <;> rfl

/-- The kinds of a format and its fields line up.  An operand with a base
register fills the field behind its own as well. -/
theorem zipWith_slot_kinds (format : Format) :
    List.zipWith OperandKind.slot format.kinds format.packedFields = format.slots := by
  cases format <;> rfl

/-- Operands that were read slot by slot are those of the format: they are packed,
each into the fields of its own slot. -/
theorem packed?_of_readsAll {isa : InstructionSet} {format : Format} {raws : List RawOperand}
    {operands : List Operand} (hreads : Slot.ReadsAll isa format.slots raws operands)
    (l : Layout) :
    format.packed? l operands =
      some (l.fill (operands.flatMap Operand.parts), operands.findSome? Operand.label?) := by
  -- The slots fix the constructors of the operands, one after the other.
  cases format
  case rrr | rri =>
    obtain _ | ⟨⟨_⟩, _ | ⟨⟨_⟩, _ | ⟨⟨_⟩, ⟨⟩⟩⟩⟩ := hreads
    simp [packed?, Layout.fill, Layout.field, Operand.parts, List.findSome?_cons, Operand.label?,
      BitVec.or_assoc]
  case rr | ri =>
    obtain _ | ⟨⟨_⟩, _ | ⟨⟨_⟩, ⟨⟩⟩⟩ := hreads
    simp [packed?, Layout.fill, Layout.field, Operand.parts, List.findSome?_cons, Operand.label?]
  case mem =>
    obtain _ | ⟨⟨_⟩, _ | ⟨⟨_, _⟩, ⟨⟩⟩⟩ := hreads
    simp [packed?, Layout.fill, Layout.field, Operand.parts, List.findSome?_cons, Operand.label?,
      BitVec.or_assoc]
  case trap =>
    obtain _ | ⟨⟨_⟩, ⟨⟩⟩ := hreads
    simp [packed?, Layout.fill, Layout.field, Operand.parts, Operand.label?]
  case j =>
    obtain _ | ⟨⟨_⟩, ⟨⟩⟩ := hreads
    simp [packed?, Layout.fill, Field.place, Operand.parts, Operand.label?]

end Format

/-- Encode an instruction format by format.  There is no answer when the operands
that were read are not those of the format. -/
def InstructionSet.encodeByFormat? (isa : InstructionSet) (mnemonic : String)
    (raws : List RawOperand) (address : Nat) : Option (Except EncodeError Encoded) :=
  match isa.lookup? mnemonic with
  | none => some (.error (.unknownInstruction mnemonic))
  | some i =>
      if raws.length = i.format.kinds.length then
        match Slot.readAll isa
            (List.zipWith OperandKind.slot i.format.kinds i.format.packedFields) raws with
        | .error e => some (.error e)
        | .ok operands =>
            (i.format.packed? isa.layout operands).map fun (bits, label) =>
              .ok
                { word := isa.layout.opcode.place i.opcode ||| bits
                  pending := label.map fun name => ⟨name, address⟩ }
      else
        some (.error (.arity mnemonic i.format.kinds.length raws.length))

/-- The encoder that works format by format always has an answer, which is the
encoding. -/
theorem InstructionSet.encodeByFormat?_eq (isa : InstructionSet) (mnemonic : String)
    (raws : List RawOperand) (address : Nat) :
    isa.encodeByFormat? mnemonic raws address = some (isa.encode mnemonic raws address) := by
  unfold encodeByFormat? encode
  cases isa.lookup? mnemonic with
  | none => rfl
  | some i =>
      simp only [Format.length_kinds, Format.zipWith_slot_kinds]
      by_cases harity : raws.length = i.format.arity
      · rw [if_pos harity, if_pos harity]
        cases hread : Slot.readAll isa i.format.slots raws with
        | error e => rfl
        | ok operands =>
            have hpacked := Format.packed?_of_readsAll ((Slot.readAll_eq_ok_iff harity).1 hread)
              isa.layout
            simp only [hpacked, Option.map_some, Instruction.pack_eq_fill, Instruction.parts]
            rfl
      · rw [if_neg harity, if_neg harity]

/-! ## Words that wait for a displacement -/

/-- The word of a branch before it is patched: its opcode, and no other bit. -/
def InstructionSet.Waiting (isa : InstructionSet) (word : Word) : Prop :=
  ∃ i ∈ isa.instructions, i.format = .j ∧ word = isa.layout.opcode.place i.opcode ∧
    isa.layout.opcode.extract word = i.opcode ∧
    word &&& ~~~isa.layout.opcode.maskInPlace = 0

theorem Field.place_and_not_maskInPlace (f : Field) (value : Word) :
    f.place value &&& ~~~f.maskInPlace = 0 := by
  apply BitVec.eq_of_getLsbD_eq
  intro i _
  cases hmask : f.maskInPlace.getLsbD i <;> simp [hmask]

theorem InstructionSet.Consistent.waiting_place {isa : InstructionSet} (h : isa.Consistent)
    {i : Instruction} (hi : i ∈ isa.instructions) (hformat : i.format = .j) :
    isa.Waiting (isa.layout.opcode.place i.opcode) := by
  have hopcode : isa.layout.opcode.extract (isa.layout.opcode.place i.opcode) = i.opcode := by
    have hfits : isa.layout.opcode.fitsWord = true := h.fits .opcode
    rw [Field.extract_place hfits, Field.and_mask_of_le hfits (h.opcode_le i hi)]
  exact ⟨i, hi, hformat, rfl, hopcode, Field.place_and_not_maskInPlace _ _⟩

/-! ## What holds after every line -/

/-- The references go to words of the program in the order of their addresses,
and each to the word of a branch that waits; labels stand in the program or right
behind it. -/
structure Scan.Sound (isa : InstructionSet) (s : Scan) : Prop where
  increasing : (s.pending.map Reference.address).Pairwise (· < ·)
  inside : ∀ r ∈ s.pending, r.address < s.words.length
  labels : ∀ name target, s.labels.get? name = some target → target ≤ s.words.length
  waiting : ∀ r ∈ s.pending, ∃ word, s.words[r.address]? = some word ∧ isa.Waiting word

namespace Scan

variable {isa : InstructionSet} {p : Code} {s : Scan}

/-- A reference that a scan holds goes to the bare opcode of a branch. -/
theorem Describes.exists_branch (h : s.Describes isa p) {r : Reference} (hr : r ∈ s.pending) :
    ∃ i ∈ isa.instructions, i.format = .j ∧
      s.words[r.address]? = some (isa.layout.opcode.place i.opcode) := by
  rw [h.pending] at hr
  obtain ⟨statement, hstatement, hlabel⟩ := Code.mem_branches_iff.1 hr
  obtain ⟨encoded, hencode⟩ := h.encodes _ _ hstatement
  rcases InstructionSet.encode_cases hencode with ⟨i, _, hlookup, hformat, _, _, _, rfl⟩ |
    ⟨_, _, _, _, _, hnone, _⟩
  · refine ⟨i, (InstructionSet.mem_of_lookup? hlookup).1, hformat, ?_⟩
    rw [h.words, List.getElem?_mapIdx, hstatement, Option.map_some, encodedWord, hencode]
  · rw [hlabel] at hnone
    cases hnone

theorem Describes.sound (h : s.Describes isa p)
    (hwaiting : ∀ i ∈ isa.instructions, i.format = .j →
      isa.Waiting (isa.layout.opcode.place i.opcode)) : s.Sound isa where
  increasing := h.pending ▸ p.pairwise_branches isa
  inside := h.address_lt
  labels name target hget := by
    rw [h.labels] at hget
    rw [h.length_words]
    exact Code.address?_le hget
  waiting r hr := by
    obtain ⟨i, hi, hformat, hword⟩ := h.exists_branch hr
    exact ⟨_, hword, hwaiting i hi hformat⟩

theorem scanFault?_of_lines {texts : List (List Char)}
    (h : (start.lines isa 1 texts).result = .ok s) : scanFault? isa texts = none := by
  have hscan := result_scan isa texts
  split at hscan
  · rw [h] at hscan
    cases hscan
  · assumption

/-- A scan that gets through its lines describes them. -/
theorem describes_of_lines {texts : List (List Char)}
    (h : (start.lines isa 1 texts).result = .ok s) : s.Describes isa (.ofTexts isa texts) := by
  have hscan := result_scan isa texts
  rw [scanFault?_of_lines h] at hscan
  obtain ⟨other, hother, hdescribes⟩ := hscan
  rw [h, Except.ok.injEq] at hother
  rwa [hother]

end Scan

/-! ## Failures of a run -/

theorem lineFault?_ne_referenceOutside (isa : InstructionSet) (above : Code) (number : Nat)
    (text : List Char) (address : Nat) :
    lineFault? isa above number text ≠ some (.referenceOutside address) := by
  unfold lineFault?
  split
  · simp
  · split
    · simp
    · intro h
      obtain ⟨s, _, hfault⟩ := Option.bind_eq_some_iff.1 h
      obtain ⟨cause, _, hcause⟩ := encodeFault?_eq_some_iff.1 hfault
      cases hcause

/-- No run finds a reference outside the program. -/
theorem assemble_ne_referenceOutside (isa : InstructionSet) (source : String) (address : Nat) :
    assemble isa source ≠ .error (.referenceOutside address) := by
  rw [assemble_eq]
  split
  next e hfault =>
    rintro ⟨⟩
    obtain ⟨⟨text, k⟩, _, hline⟩ := List.exists_of_findSome?_eq_some hfault
    exact lineFault?_ne_referenceOutside _ _ _ _ _ hline
  next =>
    split
    · simp
    · unfold Image.ofWords
      split <;> simp

/-- A run never gets stuck, for a validated instruction set with any memory: the
operands that are packed are always those of the format, and no reference is
patched outside the program.  After every line that is read, the scan is sound. -/
theorem assemble_safe {isa : InstructionSet} (hvalid : isa.validate = .ok ())
    (capacity : UInt64) (source : String) :
    (∀ mnemonic raws address,
        (isa.withCapacity capacity).encodeByFormat? mnemonic raws address =
          some ((isa.withCapacity capacity).encode mnemonic raws address)) ∧
      (∀ address,
        assemble (isa.withCapacity capacity) source ≠ .error (.referenceOutside address)) ∧
      ∀ n s,
        (Scan.start.lines (isa.withCapacity capacity) 1
          ((Text.lines source.toList).take n)).result = .ok s →
        s.Sound (isa.withCapacity capacity) := by
  have h := InstructionSet.validate_eq_ok_iff.1 hvalid
  refine ⟨InstructionSet.encodeByFormat?_eq _, assemble_ne_referenceOutside _ source,
    fun n s hscan => (Scan.describes_of_lines hscan).sound ?_⟩
  -- The memory size plays no part in the words of branches.
  exact fun i hi hformat => h.waiting_place hi hformat

/-- After two of three lines, with one branch ahead, one back, and no memory. -/
theorem assemble_safe_branches :
    ∃ s, (Scan.start.lines (InstructionSet.extended.withCapacity 0) 1
        ((Text.lines "loop: b end\n bne loop\nend:".toList).take 2)).result = .ok s ∧
      s.pending = [⟨"end", 0⟩, ⟨"loop", 1⟩] ∧ s.Sound (InstructionSet.extended.withCapacity 0) ∧
      (InstructionSet.extended.withCapacity 0).encodeByFormat? "b" [.plain "end"] 0 =
        some (.ok ⟨0x20000000#32, some ⟨"end", 0⟩⟩) ∧
      ∀ address, assemble (InstructionSet.extended.withCapacity 0)
        "loop: b end\n bne loop\nend:" ≠ .error (.referenceOutside address) := by
  have hscan : (Scan.start.lines (InstructionSet.extended.withCapacity 0) 1
      ((Text.lines "loop: b end\n bne loop\nend:".toList).take 2)).result =
        .ok ⟨⟨[("loop", 0)]⟩, [⟨"end", 0⟩, ⟨"loop", 1⟩], [0x20000000#32, 0x22000000#32]⟩ := rfl
  obtain ⟨hencode, hassemble, hsound⟩ :=
    assemble_safe (InstructionSet.validate_ofVariant .extended) 0 "loop: b end\n bne loop\nend:"
  exact ⟨_, hscan, rfl, hsound 2 _ hscan, hencode "b" [.plain "end"] 0, hassemble⟩

end Asm32
