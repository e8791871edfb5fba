import Asm32.InstructionSet.Builtin
import Asm32.InstructionSet.Validation
import Asm32.Proofs.FieldArithmetic

/-!
# Consistent instruction sets

`InstructionSet.Consistent` says what a validated instruction set promises, with
bit ranges in place of masks and without an order of checks.  Each check of
`InstructionSet.failure?` has one lemma that turns its silence into the condition
it tests, and `validate_eq_ok_iff` puts them together.  A format is looked at only
once, which makes no difference to what is found (`overlapViolation?_eq`).

The last section draws the consequence that encoding and decoding rest on: a
mnemonic and an opcode each pick one row of the table (`lookup?_of_mem`,
`byOpcode?_of_mem`).  Both built-in sets are consistent (`validate_ofVariant`).
-/

namespace Asm32

/-- Two rows of the table that cannot be mistaken for each other. -/
def Instruction.Apart (a b : Instruction) : Prop :=
  a.mnemonic ≠ b.mnemonic ∧ a.opcode ≠ b.opcode

namespace Layout

/-- No two of the fields share a bit. -/
def Separates (l : Layout) (names : List FieldName) : Prop :=
  names.Pairwise fun a b => (l.field a).Disjoint (l.field b)

end Layout

namespace InstructionSet

/-- The conditions that validation enforces. -/
structure Consistent (isa : InstructionSet) : Prop where
  memory : isa.memoryWords ≠ 0
  comment : isCommentMarker isa.comment = true
  registerMark : isRegisterMark isa.registerMark = true
  fits : ∀ name, (isa.layout.field name).fitsWord = true
  leading : isa.layout.opcode.shift.toNat + isa.layout.opcode.width.toNat = wordBits
  apart : isa.instructions.Pairwise Instruction.Apart
  opcode_le : ∀ i ∈ isa.instructions, i.opcode ≤ isa.layout.opcode.maxValue
  indexed : ∀ i ∈ isa.instructions, i.format = .mem → isa.indexed = true
  separated : ∀ i ∈ isa.instructions, isa.layout.Separates (.opcode :: i.format.fields)

/-! ## The checks one by one -/

theorem memoryViolation?_eq_none_iff {isa : InstructionSet} :
    isa.memoryViolation? = none ↔ isa.memoryWords ≠ 0 := by
  simp [memoryViolation?]

theorem markerViolation?_eq_none_iff {isa : InstructionSet} :
    isa.markerViolation? = none ↔
      isCommentMarker isa.comment = true ∧ isRegisterMark isa.registerMark = true := by
  unfold markerViolation?
  cases isCommentMarker isa.comment <;> cases isRegisterMark isa.registerMark <;> simp

theorem fieldFailure?_eq_none_iff {isa : InstructionSet} :
    isa.fieldFailure? = none ↔ ∀ name, (isa.layout.field name).fitsWord = true := by
  have hall : ∀ name, name ∈ FieldName.all := by
    intro name
    cases name <;> decide
  simp only [fieldFailure?, List.findSome?_eq_none_iff, Field.fitsWord, beq_iff_eq]
  constructor
  · intro h name
    have hname := h name (hall name)
    split at hname
    next hfits => exact hfits
    next => cases hname
    next => cases hname
  · intro h name _
    simp only [h name]

theorem leadingFailure?_eq_none_iff {isa : InstructionSet} :
    isa.leadingFailure? = none ↔
      isa.layout.opcode.shift.toNat + isa.layout.opcode.width.toNat = wordBits := by
  unfold leadingFailure?
  cases hend : isa.layout.opcode.end? with
  | none =>
      have hlarge := Field.end?_eq_none_iff.1 hend
      simp only [reduceCtorEq, false_iff, wordBits]
      omega
  | some bit =>
      rw [← Field.end?_eq_some_iff.1 hend]
      simp

/-- A row is in order when the rows above it are apart from it, its opcode fits
and it asks for no missing feature. -/
theorem rowViolation?_eq_none_iff {isa : InstructionSet} {above : List Instruction}
    {row : Instruction} :
    isa.rowViolation? above row = none ↔
      (∀ i ∈ above, i.Apart row) ∧ row.opcode ≤ isa.layout.opcode.maxValue ∧
        (row.format = .mem → isa.indexed = true) := by
  have happart : (∀ i ∈ above, i.Apart row) ↔
      (∀ i ∈ above, i.mnemonic ≠ row.mnemonic) ∧ ∀ i ∈ above, i.opcode ≠ row.opcode :=
    ⟨fun h => ⟨fun i hi => (h i hi).1, fun i hi => (h i hi).2⟩,
      fun h i hi => ⟨h.1 i hi, h.2 i hi⟩⟩
  rw [happart]
  unfold rowViolation?
  by_cases hmnemonic : above.any (fun i => i.mnemonic == row.mnemonic) = true
  · rw [if_pos hmnemonic]
    simp only [List.any_eq_true, beq_iff_eq] at hmnemonic
    obtain ⟨i, hi, hsame⟩ := hmnemonic
    simp only [reduceCtorEq, false_iff]
    intro hrow
    obtain ⟨⟨h, _⟩, _⟩ := hrow
    exact h i hi hsame
  · rw [if_neg hmnemonic]
    have hfresh : ∀ i ∈ above, i.mnemonic ≠ row.mnemonic := by
      simpa using hmnemonic
    cases hfind : above.find? (fun i => i.opcode == row.opcode) with
    | some first =>
        have hsame := List.find?_some hfind
        have hmem := List.mem_of_find?_eq_some hfind
        simp only [beq_iff_eq] at hsame
        simp only [reduceCtorEq, false_iff]
        intro hrow
        obtain ⟨⟨_, h⟩, _⟩ := hrow
        exact h first hmem hsame
    | none =>
        have hopcodes : ∀ i ∈ above, i.opcode ≠ row.opcode := by
          simpa using hfind
        by_cases hwide : isa.layout.opcode.maxValue < row.opcode
        · simp [hwide, BitVec.not_le.2 hwide]
        · have hle : row.opcode ≤ isa.layout.opcode.maxValue := BitVec.not_lt.1 hwide
          simp only [hwide, hle, if_false]
          by_cases hmem : row.format = .mem <;> cases hindexed : isa.indexed <;> simp_all

/-- The rows are in order when they are apart from those above and from each
other, and each is in order by itself. -/
theorem tableViolation?_eq_none_iff {isa : InstructionSet} {above rows : List Instruction} :
    isa.tableViolation? above rows = none ↔
      (∀ row ∈ rows, ∀ i ∈ above, i.Apart row) ∧ rows.Pairwise Instruction.Apart ∧
        (∀ row ∈ rows, row.opcode ≤ isa.layout.opcode.maxValue) ∧
        ∀ row ∈ rows, row.format = .mem → isa.indexed = true := by
  induction rows generalizing above with
  | nil => simp [tableViolation?]
  | cons row rest ih =>
      rw [tableViolation?, Option.or_eq_none_iff, rowViolation?_eq_none_iff, ih]
      simp only [List.forall_mem_cons, List.forall_mem_append, List.pairwise_cons, forall_and]
      tauto

end InstructionSet

theorem Layout.firstOverlap?_eq_none_iff {l : Layout} {names : List FieldName}
    (hfits : ∀ name, (l.field name).fitsWord = true) :
    l.firstOverlap? names = none ↔ l.Separates names := by
  induction names with
  | nil => simp [firstOverlap?, Separates]
  | cons a rest ih =>
      have hhead : rest.find? (fun b => (l.field a).overlaps (l.field b)) = none ↔
          ∀ b ∈ rest, (l.field a).Disjoint (l.field b) := by
        simp only [List.find?_eq_none, Bool.not_eq_true]
        exact forall₂_congr fun b _ => Field.overlaps_eq_false_iff (hfits a) (hfits b)
      rw [Separates, List.pairwise_cons, ← hhead, ← Separates, ← ih, firstOverlap?]
      cases rest.find? (fun b => (l.field a).overlaps (l.field b)) <;> simp

namespace InstructionSet

/-- Formats that have been checked without a fault may be passed over: the first
fault is that of the first row whose format has one. -/
theorem overlapViolation?_eq {isa : InstructionSet} {checked : List Format}
    (hchecked : ∀ format ∈ checked, isa.formatViolation? format = none)
    (rows : List Instruction) :
    isa.overlapViolation? checked rows =
      rows.findSome? fun row => isa.formatViolation? row.format := by
  induction rows generalizing checked with
  | nil => rfl
  | cons row rest ih =>
      rw [overlapViolation?, List.findSome?_cons]
      split
      next hmem =>
        rw [hchecked _ (List.contains_iff_mem.1 hmem), ih hchecked]
      next =>
        cases hrow : isa.formatViolation? row.format with
        | some e => rfl
        | none =>
            rw [Option.none_or, ih]
            intro format hformat
            rcases List.mem_append.1 hformat with hbefore | hlast
            · exact hchecked format hbefore
            · rw [List.mem_singleton.1 hlast, hrow]

theorem overlapViolation?_eq_none_iff {isa : InstructionSet}
    (hfits : ∀ name, (isa.layout.field name).fitsWord = true) :
    isa.overlapViolation? [] isa.instructions = none ↔
      ∀ i ∈ isa.instructions, isa.layout.Separates (.opcode :: i.format.fields) := by
  rw [overlapViolation?_eq (by simp)]
  simp only [formatViolation?, List.findSome?_eq_none_iff, Option.map_eq_none_iff, Layout.overlap?]
  exact forall₂_congr fun i _ => Layout.firstOverlap?_eq_none_iff hfits

/-- Validation accepts exactly the consistent instruction sets. -/
theorem validate_eq_ok_iff {isa : InstructionSet} : isa.validate = .ok () ↔ isa.Consistent := by
  have hfailure : isa.validate = .ok () ↔ isa.failure? = none := by
    unfold validate
    cases isa.failure? <;> simp
  rw [hfailure]
  simp only [failure?, Option.or_eq_none_iff, Option.map_eq_none_iff, memoryViolation?_eq_none_iff,
    markerViolation?_eq_none_iff, fieldFailure?_eq_none_iff, leadingFailure?_eq_none_iff,
    tableViolation?_eq_none_iff]
  constructor
  · intro hchecks
    obtain ⟨⟨hmemory, hcomment, hmark⟩, hfits, hleading, htable, hoverlap⟩ := hchecks
    obtain ⟨_, hapart, hopcode, hindexed⟩ := htable
    exact ⟨hmemory, hcomment, hmark, hfits, hleading, hapart, hopcode, hindexed,
      (overlapViolation?_eq_none_iff hfits).1 hoverlap⟩
  · intro h
    refine ⟨⟨h.memory, h.comment, h.registerMark⟩, h.fits, h.leading,
      ⟨by simp, h.apart, h.opcode_le, h.indexed⟩, ?_⟩
    exact (overlapViolation?_eq_none_iff h.fits).2 h.separated

/-- The built-in sets pass their own validation. -/
theorem validate_ofVariant (v : Variant) : (ofVariant v).validate = .ok () := by
  cases v <;> rfl

/-! ## Rows are found by mnemonic and by opcode -/

theorem mem_of_lookup? {isa : InstructionSet} {mnemonic : String} {i : Instruction}
    (h : isa.lookup? mnemonic = some i) : i ∈ isa.instructions ∧ i.mnemonic = mnemonic := by
  have hname := List.find?_some h
  exact ⟨List.mem_of_find?_eq_some h, by simpa using hname⟩

theorem mem_of_byOpcode? {isa : InstructionSet} {opcode : Word} {i : Instruction}
    (h : isa.byOpcode? opcode = some i) : i ∈ isa.instructions ∧ i.opcode = opcode := by
  have hopcode := List.find?_some h
  exact ⟨List.mem_of_find?_eq_some h, by simpa using hopcode⟩

/-- Rows that are apart are found again by what keeps them apart. -/
theorem find?_eq_of_apart {rows : List Instruction} (hapart : rows.Pairwise Instruction.Apart)
    {test : Instruction → Bool} {i : Instruction} (hi : i ∈ rows) (htest : test i = true)
    (hother : ∀ a b : Instruction, a.Apart b → test a = true → test b = false) :
    rows.find? test = some i := by
  induction rows with
  | nil => simp at hi
  | cons row rest ih =>
      rw [List.pairwise_cons] at hapart
      rcases List.mem_cons.1 hi with rfl | hrest
      · simp [htest]
      · have hrow : test row = false := by
          by_contra hne
          have htrue : test row = true := by simpa using hne
          have hfalse := hother row i (hapart.1 i hrest) htrue
          rw [htest] at hfalse
          exact absurd hfalse (by decide)
        rw [List.find?_cons, hrow]
        exact ih hapart.2 hrest

namespace Consistent

theorem fits_imm {isa : InstructionSet} (h : isa.Consistent) : isa.layout.imm.fitsWord = true :=
  h.fits .imm

theorem fits_disp {isa : InstructionSet} (h : isa.Consistent) : isa.layout.disp.fitsWord = true :=
  h.fits .disp

theorem lookup?_of_mem {isa : InstructionSet} (h : isa.Consistent) {i : Instruction}
    (hi : i ∈ isa.instructions) : isa.lookup? i.mnemonic = some i := by
  refine find?_eq_of_apart h.apart hi (by simp) ?_
  intro a b hab ha
  have hname : a.mnemonic = i.mnemonic := by simpa using ha
  have hne : b.mnemonic ≠ i.mnemonic := fun hb => hab.1 (hname.trans hb.symm)
  simpa using hne

theorem byOpcode?_of_mem {isa : InstructionSet} (h : isa.Consistent) {i : Instruction}
    (hi : i ∈ isa.instructions) : isa.byOpcode? i.opcode = some i := by
  refine find?_eq_of_apart h.apart hi (by simp) ?_
  intro a b hab ha
  have hopcode : a.opcode = i.opcode := by simpa using ha
  have hne : b.opcode ≠ i.opcode := fun hb => hab.2 (hopcode.trans hb.symm)
  simpa using hne

/-- The look-up by mnemonic does not depend on the order of the rows. -/
theorem lookup?_eq_some_iff {isa : InstructionSet} (h : isa.Consistent) {mnemonic : String}
    {i : Instruction} :
    isa.lookup? mnemonic = some i ↔ i ∈ isa.instructions ∧ i.mnemonic = mnemonic := by
  constructor
  · exact mem_of_lookup?
  · rintro ⟨hi, rfl⟩
    exact h.lookup?_of_mem hi

/-- The look-up by opcode does not depend on the order of the rows. -/
theorem byOpcode?_eq_some_iff {isa : InstructionSet} (h : isa.Consistent) {opcode : Word}
    {i : Instruction} :
    isa.byOpcode? opcode = some i ↔ i ∈ isa.instructions ∧ i.opcode = opcode := by
  constructor
  · exact mem_of_byOpcode?
  · rintro ⟨hi, rfl⟩
    exact h.byOpcode?_of_mem hi

end Consistent

end InstructionSet

end Asm32
