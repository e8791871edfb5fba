import Asm32.Proofs.Consistency
import Mathlib.Data.List.Pairwise

/-!
# What validation accepts and what it reports

`InstructionSet.WellFormed` lists the conditions on a description in terms of
its characters, numbers and bit ranges, and `SetError.Holds` says what is wrong
with a description when a given error is reported.  Validation accepts exactly
the well-formed descriptions, and its error is always one that holds; it breaks
off only at a field whose end is no 32-bit number (`validate_exact`).

An error is traced to the check that reports it.  The checks come in a fixed
order, so each may rely on the silence of those before it: opcodes are compared
with their field, and masks with each other, only when all fields fit the word.
-/

namespace Asm32

namespace InstructionSet

/-- The conditions on a description of an instruction set. -/
structure WellFormed (isa : InstructionSet) : Prop where
  memory : 0 < isa.memoryWords.toNat
  comment_not_blank : Text.isBlank isa.comment = false
  comment_not_alphanum : isa.comment.isAlphanum = false
  comment_not_mark : isa.comment ∉ [':', ',', '(', ')', '-', '+', '_']
  registerMark : isa.registerMark.isAlpha = true
  width_pos : ∀ name, 1 ≤ (isa.layout.field name).width.toNat
  inside : ∀ name, (isa.layout.field name).shift.toNat + (isa.layout.field name).width.toNat ≤ 32
  leading : isa.layout.opcode.shift.toNat + isa.layout.opcode.width.toNat = 32
  mnemonics : (isa.instructions.map Instruction.mnemonic).Nodup
  opcodes : (isa.instructions.map Instruction.opcode).Nodup
  opcode_lt : ∀ i ∈ isa.instructions, i.opcode.toNat < 2 ^ isa.layout.opcode.width.toNat
  /-- Indexed addressing is the lowest bit of the features. -/
  indexed : ∀ i ∈ isa.instructions, i.format = .mem → isa.features.bits.getLsbD 0 = true
  separated : ∀ i ∈ isa.instructions, (FieldName.opcode :: i.format.fields).Pairwise fun a b =>
    (isa.layout.field a).Disjoint (isa.layout.field b)

end InstructionSet

/-- What an error says about a description is the case.  Of two rows of the
table or two fields of a format, the first one stands before the second. -/
def SetError.Holds (isa : InstructionSet) : SetError → Prop
  | .zeroCapacity => isa.memoryWords.toNat = 0
  | .badMarker .comment c => c = isa.comment ∧
      (Text.isBlank c = true ∨ c.isAlphanum = true ∨ c ∈ [':', ',', '(', ')', '-', '+', '_'])
  | .badMarker .register c => c = isa.registerMark ∧ c.isAlpha = false
  | .fieldOutOfRange name field => field = isa.layout.field name ∧
      (field.width.toNat = 0 ∨ 32 < field.shift.toNat + field.width.toNat)
  | .opcodeNotLeading => isa.layout.opcode.shift.toNat + isa.layout.opcode.width.toNat ≠ 32
  | .duplicateMnemonic mnemonic => ∃ a b, [a, b].Sublist isa.instructions ∧
      a.mnemonic = mnemonic ∧ b.mnemonic = mnemonic
  | .duplicateOpcode opcode first second => ∃ a b, [a, b].Sublist isa.instructions ∧
      a.mnemonic = first ∧ b.mnemonic = second ∧ a.opcode = opcode ∧ b.opcode = opcode
  | .opcodeTooWide mnemonic opcode => ∃ i ∈ isa.instructions, i.mnemonic = mnemonic ∧
      i.opcode = opcode ∧ 2 ^ isa.layout.opcode.width.toNat ≤ opcode.toNat
  | .indexedDisabled mnemonic => ∃ i ∈ isa.instructions, i.mnemonic = mnemonic ∧
      i.format = .mem ∧ isa.features.bits.getLsbD 0 = false
  | .overlap format first second => (∃ i ∈ isa.instructions, i.format = format) ∧
      [first, second].Sublist (.opcode :: format.fields) ∧
      ¬(isa.layout.field first).Disjoint (isa.layout.field second)

/-- A check fails for a reason: the error that it finds holds, or the field at
which it breaks off has bits and its end is no 32-bit number. -/
def CheckFailure.Holds (isa : InstructionSet) : CheckFailure → Prop
  | .invalid error => error.Holds isa
  | .overflow name => 1 ≤ (isa.layout.field name).width.toNat ∧
      2 ^ 32 ≤ (isa.layout.field name).shift.toNat + (isa.layout.field name).width.toNat

namespace InstructionSet

variable {isa : InstructionSet}

/-! ## The conditions in plain terms -/

theorem isCommentMarker_iff {c : Char} :
    isCommentMarker c = true ↔ Text.isBlank c = false ∧ c.isAlphanum = false ∧
      c ∉ [':', ',', '(', ')', '-', '+', '_'] := by
  simp only [isCommentMarker, isReserved, Bool.and_eq_true, Bool.not_eq_true',
    List.contains_eq_mem, decide_eq_false_iff_not]
  tauto

theorem indexed_eq_getLsbD (isa : InstructionSet) :
    isa.indexed = isa.features.bits.getLsbD 0 := by
  have hone : Features.indexedAddressing.bits = 1#32 := rfl
  rw [indexed, Features.indexed, hone, BitVec.and_one_eq_setWidth_ofBool_getLsbD]
  cases isa.features.bits.getLsbD 0 <;> rfl

theorem pairwise_apart_iff {rows : List Instruction} :
    rows.Pairwise Instruction.Apart ↔
      (rows.map Instruction.mnemonic).Nodup ∧ (rows.map Instruction.opcode).Nodup := by
  rw [List.Nodup, List.Nodup, List.pairwise_map, List.pairwise_map, ← List.pairwise_and_iff]
  rfl

end InstructionSet

/-- The largest number of a field bounds the numbers below its size. -/
theorem Field.le_maxValue_iff {f : Field} (hfits : f.fitsWord = true) {value : Word} :
    value ≤ f.maxValue ↔ value.toNat < 2 ^ f.width.toNat := by
  have hpos := Nat.two_pow_pos f.width.toNat
  rw [BitVec.le_def, maxValue, toNat_mask hfits]
  omega

namespace InstructionSet

variable {isa : InstructionSet}

/-- Consistency, condition by condition. -/
theorem consistent_iff_wellFormed : isa.Consistent ↔ isa.WellFormed := by
  have hmemory : isa.memoryWords ≠ 0 ↔ 0 < isa.memoryWords.toNat := by
    rw [ne_eq, ← UInt64.toNat_inj, Nat.pos_iff_ne_zero]
    rfl
  constructor
  · intro h
    obtain ⟨hblank, halphanum, hmark⟩ := isCommentMarker_iff.1 h.comment
    obtain ⟨hmnemonics, hopcodes⟩ := pairwise_apart_iff.1 h.apart
    exact
      { memory := hmemory.1 h.memory
        comment_not_blank := hblank
        comment_not_alphanum := halphanum
        comment_not_mark := hmark
        registerMark := h.registerMark
        width_pos := fun name => (Field.fitsWord_iff.1 (h.fits name)).1
        inside := fun name => (Field.fitsWord_iff.1 (h.fits name)).2
        leading := h.leading
        mnemonics := hmnemonics
        opcodes := hopcodes
        opcode_lt := fun i hi => (Field.le_maxValue_iff (h.fits .opcode)).1 (h.opcode_le i hi)
        indexed := fun i hi hmem => isa.indexed_eq_getLsbD ▸ h.indexed i hi hmem
        separated := h.separated }
  · intro h
    have hfits : ∀ name, (isa.layout.field name).fitsWord = true := fun name =>
      Field.fitsWord_iff.2 ⟨h.width_pos name, h.inside name⟩
    exact
      { memory := hmemory.2 h.memory
        comment := isCommentMarker_iff.2
          ⟨h.comment_not_blank, h.comment_not_alphanum, h.comment_not_mark⟩
        registerMark := h.registerMark
        fits := hfits
        leading := h.leading
        apart := pairwise_apart_iff.2 ⟨h.mnemonics, h.opcodes⟩
        opcode_le := fun i hi => (Field.le_maxValue_iff (hfits .opcode)).2 (h.opcode_lt i hi)
        indexed := fun i hi hmem => isa.indexed_eq_getLsbD ▸ h.indexed i hi hmem
        separated := h.separated }

/-! ## The error of each check -/

theorem holds_of_memoryViolation? {e : SetError} (h : isa.memoryViolation? = some e) :
    e.Holds isa := by
  unfold memoryViolation? at h
  split at h
  next hzero =>
    cases h
    exact congrArg UInt64.toNat hzero
  next => cases h

theorem holds_of_markerViolation? {e : SetError} (h : isa.markerViolation? = some e) :
    e.Holds isa := by
  unfold markerViolation? at h
  split at h
  next hcomment =>
    cases h
    refine ⟨rfl, ?_⟩
    rw [Bool.not_eq_true', Bool.eq_false_iff, ne_eq, isCommentMarker_iff] at hcomment
    simp only [Bool.eq_false_iff] at hcomment
    tauto
  next =>
    split at h
    next hmark =>
      cases h
      rw [Bool.not_eq_true'] at hmark
      exact ⟨rfl, hmark⟩
    next => cases h

theorem holds_of_fieldFailure? {failure : CheckFailure} (h : isa.fieldFailure? = some failure) :
    failure.Holds isa := by
  obtain ⟨name, _, hname⟩ := List.exists_of_findSome?_eq_some h
  split at hname
  next => cases hname
  next hfits =>
    cases hname
    refine ⟨rfl, ?_⟩
    rw [Field.fitsWord?_eq] at hfits
    split_ifs at hfits <;> simp at hfits <;> omega
  next hfits =>
    cases hname
    rw [Field.fitsWord?_eq] at hfits
    split_ifs at hfits
    exact ⟨by omega, by assumption⟩

/-- Once all fields are known to fit the word, the opcode field has an end. -/
theorem holds_of_leadingFailure? (hfits : isa.layout.opcode.fitsWord = true)
    {failure : CheckFailure} (h : isa.leadingFailure? = some failure) : failure.Holds isa := by
  have hinside := Field.fitsWord_iff.1 hfits
  unfold leadingFailure? at h
  split at h
  next bit hend =>
    split at h
    next => cases h
    next hleading =>
      cases h
      rw [Field.end?_eq_some_iff.1 hend] at hleading
      exact hleading
  next hend =>
    have hlarge := Field.end?_eq_none_iff.1 hend
    omega

/-- A row that is reported stands below the rows it is compared with. -/
theorem holds_of_rowViolation? (hfits : isa.layout.opcode.fitsWord = true)
    {above rest : List Instruction} {row : Instruction}
    (htable : isa.instructions = above ++ row :: rest) {e : SetError}
    (h : isa.rowViolation? above row = some e) : e.Holds isa := by
  have hrow : row ∈ isa.instructions := by simp [htable]
  have hbelow : ∀ i ∈ above, [i, row].Sublist isa.instructions := by
    intro i hi
    rw [htable]
    exact (List.singleton_sublist.2 hi).append (List.singleton_sublist.2 List.mem_cons_self)
  unfold rowViolation? at h
  split at h
  next hmnemonic =>
    cases h
    obtain ⟨i, hi, hsame⟩ := List.any_eq_true.1 hmnemonic
    exact ⟨i, row, hbelow i hi, eq_of_beq hsame, rfl⟩
  next =>
    split at h
    next first hfind =>
      cases h
      have hsame := List.find?_some hfind
      exact ⟨first, row, hbelow first (List.mem_of_find?_eq_some hfind), rfl, rfl,
        eq_of_beq hsame, rfl⟩
    next =>
      split at h
      next hwide =>
        cases h
        refine ⟨row, hrow, rfl, rfl, ?_⟩
        rw [← Nat.not_lt, ← Field.le_maxValue_iff hfits, BitVec.not_le]
        exact hwide
      next =>
        split at h
        next hmem =>
          cases h
          exact ⟨row, hrow, rfl, hmem.1, isa.indexed_eq_getLsbD ▸ hmem.2⟩
        next => cases h

theorem holds_of_tableViolation? (hfits : isa.layout.opcode.fitsWord = true)
    {above rows : List Instruction} (htable : isa.instructions = above ++ rows) {e : SetError}
    (h : isa.tableViolation? above rows = some e) : e.Holds isa := by
  induction rows generalizing above with
  | nil => cases h
  | cons row rest ih =>
      rw [tableViolation?, Option.or_eq_some_iff] at h
      rcases h with hrow | ⟨_, hrest⟩
      · exact holds_of_rowViolation? hfits htable hrow
      · exact ih (by simp [htable]) hrest

end InstructionSet

/-- Fields that are reported to overlap stand in this order, and do. -/
theorem Layout.firstOverlap?_eq_some {l : Layout} {names : List FieldName}
    {first second : FieldName} (h : l.firstOverlap? names = some (first, second)) :
    [first, second].Sublist names ∧ (l.field first).overlaps (l.field second) = true := by
  induction names with
  | nil => cases h
  | cons a rest ih =>
      rw [firstOverlap?] at h
      split at h
      next b hfind =>
        cases h
        have hmem := List.mem_of_find?_eq_some hfind
        have hoverlaps := List.find?_some hfind
        exact ⟨(List.singleton_sublist.2 hmem).cons_cons first, hoverlaps⟩
      next =>
        obtain ⟨hsublist, hoverlaps⟩ := ih h
        exact ⟨hsublist.cons a, hoverlaps⟩

namespace InstructionSet

variable {isa : InstructionSet}

theorem holds_of_overlapViolation? (hfits : ∀ name, (isa.layout.field name).fitsWord = true)
    {e : SetError} (h : isa.overlapViolation? [] isa.instructions = some e) : e.Holds isa := by
  rw [overlapViolation?_eq (by simp)] at h
  obtain ⟨i, hi, hpair⟩ := List.exists_of_findSome?_eq_some h
  obtain ⟨⟨first, second⟩, hoverlap, rfl⟩ := Option.map_eq_some_iff.1 hpair
  obtain ⟨hsublist, hshare⟩ := Layout.firstOverlap?_eq_some hoverlap
  refine ⟨⟨i, hi, rfl⟩, hsublist, ?_⟩
  rw [← Field.overlaps_eq_false_iff (hfits first) (hfits second), Bool.not_eq_false]
  exact hshare

/-- The first check that fails does so for a reason. -/
theorem holds_of_failure? {failure : CheckFailure} (h : isa.failure? = some failure) :
    failure.Holds isa := by
  simp only [failure?, Option.or_eq_some_iff, Option.map_eq_some_iff] at h
  rcases h with ⟨e, hmemory | ⟨_, hmarker⟩, rfl⟩ | ⟨_, hfield | ⟨hfields, hrest⟩⟩
  · exact holds_of_memoryViolation? hmemory
  · exact holds_of_markerViolation? hmarker
  · exact holds_of_fieldFailure? hfield
  · have hfits := fieldFailure?_eq_none_iff.1 hfields
    rcases hrest with hleading | ⟨_, e, htable | ⟨_, hoverlap⟩, rfl⟩
    · exact holds_of_leadingFailure? (hfits .opcode) hleading
    · exact holds_of_tableViolation? (hfits .opcode) rfl htable
    · exact holds_of_overlapViolation? hfits hoverlap

theorem holds_of_validate {failure : CheckFailure} (h : isa.validate = .error failure) :
    failure.Holds isa := by
  apply holds_of_failure?
  unfold validate at h
  split at h
  next hfailure => rw [hfailure, Except.error.inj h]
  next => cases h

/-- Validation accepts exactly the well-formed descriptions, and the error that
it reports otherwise holds of the description.  It breaks off without an error
only at a field whose end is no 32-bit number. -/
theorem validate_exact (isa : InstructionSet) :
    (isa.validate = .ok () ↔ isa.WellFormed) ∧
      (∀ e, isa.validate = .error (.invalid e) → e.Holds isa) ∧
      ∀ name, isa.validate = .error (.overflow name) →
        1 ≤ (isa.layout.field name).width.toNat ∧
          2 ^ 32 ≤ (isa.layout.field name).shift.toNat + (isa.layout.field name).width.toNat :=
  ⟨validate_eq_ok_iff.trans consistent_iff_wellFormed, fun _ he => holds_of_validate he,
    fun _ hoverflow => holds_of_validate hoverflow⟩

end InstructionSet

end Asm32
