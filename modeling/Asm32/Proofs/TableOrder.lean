import Asm32.Assembly
import Asm32.Listing
import Asm32.Proofs.Consistency

/-!
# The order of the instruction table

Both look-ups take the first row that fits, and validation compares each row
with those above it, so the order of the rows could matter.  It does not: in a
validated set a mnemonic and an opcode each belong to one row at most
(`Consistent.withRows`, `Consistent.lookup?_withRows`,
`Consistent.byOpcode?_withRows`).

The rest carries this through the users of the table.  They read the set through
its look-ups and through what is not in the table:

* `encode_withRows` is one statement, `Scan.line_withRows` the step of the scan
  and `Scan.lines_withRows` its run, so whole runs agree with their logs
  (`assembleLogged_withRows`);
* `decode?_withRows` is one word, and a listing depends on nothing but the
  decoding of words (`listing_congr`).
-/

namespace Asm32

namespace InstructionSet

/-- The same instruction set with another table. -/
def withRows (isa : InstructionSet) (rows : List Instruction) : InstructionSet :=
  { isa with instructions := rows }

end InstructionSet

variable {isa : InstructionSet} {rows : List Instruction}

/-! ## Rows in another order -/

theorem Instruction.Apart.symm {a b : Instruction} (h : a.Apart b) : b.Apart a :=
  ⟨h.1.symm, h.2.symm⟩

namespace InstructionSet.Consistent

/-- No condition on a set depends on the order of its rows. -/
theorem withRows (h : isa.Consistent) (hrows : rows.Perm isa.instructions) :
    (isa.withRows rows).Consistent where
  memory := h.memory
  comment := h.comment
  registerMark := h.registerMark
  fits := h.fits
  leading := h.leading
  apart := (hrows.pairwise_iff Instruction.Apart.symm).2 h.apart
  opcode_le := fun i hi => h.opcode_le i (hrows.mem_iff.1 hi)
  indexed := fun i hi => h.indexed i (hrows.mem_iff.1 hi)
  separated := fun i hi => h.separated i (hrows.mem_iff.1 hi)

theorem lookup?_withRows (h : isa.Consistent) (hrows : rows.Perm isa.instructions)
    (mnemonic : String) : (isa.withRows rows).lookup? mnemonic = isa.lookup? mnemonic := by
  ext i
  rw [(h.withRows hrows).lookup?_eq_some_iff, h.lookup?_eq_some_iff]
  exact and_congr_left' hrows.mem_iff

theorem byOpcode?_withRows (h : isa.Consistent) (hrows : rows.Perm isa.instructions)
    (opcode : Word) : (isa.withRows rows).byOpcode? opcode = isa.byOpcode? opcode := by
  ext i
  rw [(h.withRows hrows).byOpcode?_eq_some_iff, h.byOpcode?_eq_some_iff]
  exact and_congr_left' hrows.mem_iff

end InstructionSet.Consistent

/-! ## Encoding -/

namespace Slot

theorem read_withRows (isa : InstructionSet) (rows : List Instruction) (slot : Slot)
    (raw : RawOperand) : slot.read (isa.withRows rows) raw = slot.read isa raw := by
  have hread : slot.read? (isa.withRows rows) raw = slot.read? isa raw := by
    cases slot <;> cases raw <;> rfl
  rw [read, read, hread]

/-- Operands are read without the table. -/
theorem readAll_withRows (isa : InstructionSet) (rows : List Instruction) (slots : List Slot)
    (raws : List RawOperand) :
    readAll (isa.withRows rows) slots raws = readAll isa slots raws := by
  induction slots generalizing raws with
  | nil => rfl
  | cons slot slots ih =>
      cases raws with
      | nil => rfl
      | cons raw raws => rw [readAll, readAll, read_withRows, ih]

end Slot

section Assembling

variable (hlookup : ∀ mnemonic, (isa.withRows rows).lookup? mnemonic = isa.lookup? mnemonic)

include hlookup

theorem InstructionSet.encode_withRows (mnemonic : String) (raws : List RawOperand)
    (address : Nat) :
    (isa.withRows rows).encode mnemonic raws address = isa.encode mnemonic raws address := by
  unfold encode
  rw [hlookup]
  simp only [Slot.readAll_withRows]
  rfl

/-! ## Assembling -/

theorem Scan.line_withRows (s : Scan) (number : Nat) (text : List Char) :
    s.line (isa.withRows rows) number text = s.line isa number text := by
  have hadd : ∀ (s : Scan) (statement : Option Statement),
      s.addStatement (isa.withRows rows) number statement =
        s.addStatement isa number statement := by
    intro s statement
    cases statement with
    | none => rfl
    | some statement => rw [addStatement, addStatement, InstructionSet.encode_withRows hlookup]
  unfold line
  simp only [hadd]
  rfl

theorem Scan.lines_withRows (s : Scan) (number : Nat) (texts : List (List Char)) :
    s.lines (isa.withRows rows) number texts = s.lines isa number texts := by
  induction texts generalizing s number with
  | nil => rfl
  | cons text rest ih => simp only [lines, line_withRows hlookup, ih]

/-- A run is the same, failures and log included. -/
theorem assembleLogged_withRows (source : String) :
    assembleLogged (isa.withRows rows) source = assembleLogged isa source := by
  unfold assembleLogged
  rw [Scan.lines_withRows hlookup]
  rfl

end Assembling

/-! ## Decoding -/

namespace InstructionSet

theorem decode?_withRows
    (hopcode : ∀ opcode, (isa.withRows rows).byOpcode? opcode = isa.byOpcode? opcode)
    (word : Word) : (isa.withRows rows).decode? word = isa.decode? word := by
  unfold decode?
  rw [hopcode]
  rfl

/-- A listing takes nothing from the set but how it decodes words. -/
theorem listing_congr {other : InstructionSet}
    (hdecode : ∀ word, other.decode? word = isa.decode? word) (words : List Word) :
    other.listing words = isa.listing words := by
  have htarget : other.targetOf? = isa.targetOf? := by
    funext address word
    rw [targetOf?, targetOf?, hdecode]
  have htext : other.wordText = isa.wordText := by
    funext word
    rw [wordText, wordText, hdecode]
  unfold listing labelled targetsFrom row
  rw [htarget, htext]

/-- The order of the table is irrelevant: with its rows in any other order a
validated set is validated again, assembles every source to the same image or
the same failure, and decodes and lists all words in the same way. -/
theorem withRows_perm (hvalid : isa.validate = .ok ()) (hrows : rows.Perm isa.instructions) :
    (isa.withRows rows).validate = .ok () ∧
      (∀ source, assemble (isa.withRows rows) source = assemble isa source) ∧
      (∀ word, (isa.withRows rows).decode? word = isa.decode? word) ∧
      ∀ words, (isa.withRows rows).listing words = isa.listing words := by
  have h := validate_eq_ok_iff.1 hvalid
  have hdecode := decode?_withRows (h.byOpcode?_withRows hrows)
  refine ⟨validate_eq_ok_iff.2 (h.withRows hrows), fun source => ?_, hdecode, listing_congr hdecode⟩
  rw [assemble, assemble, assembleLogged_withRows (h.lookup?_withRows hrows)]

/-- The table of the extended set upside down, with a program, an unknown
mnemonic and a word that is a branch. -/
theorem withRows_perm_reverse :
    (extended.withRows extended.instructions.reverse).validate = .ok () ∧
      assemble (extended.withRows extended.instructions.reverse) "l: ld r1, 4(r2)\n b l" =
        .ok ⟨[0x18120004#32, 0x2000fffe#32], 256, by decide⟩ ∧
      assemble (extended.withRows extended.instructions.reverse) "nop" =
        .error (.encode 1 (.unknownInstruction "nop")) ∧
      ((extended.withRows extended.instructions.reverse).listing [0x20000000#32]).map Row.text =
        ["b +0"] := by
  have hextended : extended.validate = .ok () := validate_ofVariant .extended
  obtain ⟨hvalid, hassemble, _, hlisting⟩ :=
    withRows_perm hextended (List.reverse_perm extended.instructions)
  refine ⟨hvalid, ?_, ?_, ?_⟩
  · rw [hassemble]
    rfl
  · rw [hassemble]
    rfl
  · rw [hlisting]
    decide

end InstructionSet

end Asm32
