import Asm32.Instruction.Decoding
import Asm32.Instruction.Encoding
import Asm32.Proofs.Consistency

/-!
# Words as filled fields

`Layout.fill` is the word that has given values in given fields and zeros
elsewhere.  The encoder and the decoder both meet it:

* what the encoder packs is `fill` of the parts of its operands
  (`pack_eq_fill`), and fields that share no bit give their values back
  (`extract_fill`);
* a word without stray bits is `fill` of the fields it is read as
  (`fill_fieldsOf`);
* a filled word decodes to the instruction whose opcode it carries
  (`decode?_fill`).

No proof here looks at the formats one by one: all that is used of a format is
that its slots name its fields.
-/

namespace Asm32

namespace Layout

/-- The word with the given values in the given fields. -/
def fill (l : Layout) : List (FieldName × Word) → Word
  | [] => 0#32
  | part :: rest => (l.field part.1).place part.2 ||| l.fill rest

/-- The named fields of a word, each with its value. -/
def fieldsOf (l : Layout) (names : List FieldName) (word : Word) : List (FieldName × Word) :=
  names.map fun name => (name, (l.field name).extract word)

theorem fill_append (l : Layout) (parts others : List (FieldName × Word)) :
    l.fill (parts ++ others) = l.fill parts ||| l.fill others := by
  induction parts with
  | nil => rw [List.nil_append, fill, BitVec.zero_or]
  | cons part rest ih => rw [List.cons_append, fill, fill, ih, BitVec.or_assoc]

/-- A bit of the word may be set exactly when it lies in a field of the format. -/
theorem getLsbD_usedMask (l : Layout) (format : Format) (i : Nat) :
    (l.usedMask format).getLsbD i =
      (FieldName.opcode :: format.fields).any fun name => (l.field name).maskInPlace.getLsbD i := by
  have hfold : ∀ (names : List FieldName) (start : Word),
      ((names.map fun name => (l.field name).maskInPlace).foldl (· ||| ·) start).getLsbD i =
        (start.getLsbD i || names.any fun name => (l.field name).maskInPlace.getLsbD i) := by
    intro names
    induction names with
    | nil => simp
    | cons name rest ih =>
        intro start
        rw [List.map_cons, List.foldl_cons, ih, BitVec.getLsbD_or, List.any_cons, Bool.or_assoc]
  rw [usedMask, hfold, List.any_cons]
  rfl

/-! ## Reading a filled word -/

/-- A field that no part touches is zero. -/
theorem extract_fill_of_disjoint {l : Layout} {f : Field} {parts : List (FieldName × Word)}
    (hdisjoint : ∀ part ∈ parts, f.Disjoint (l.field part.1)) :
    f.extract (l.fill parts) = 0#32 := by
  induction parts with
  | nil => simp [fill, Field.extract]
  | cons part rest ih =>
      rw [List.forall_mem_cons] at hdisjoint
      rw [fill, Field.extract_or, Field.extract_place_of_disjoint hdisjoint.1, ih hdisjoint.2,
        BitVec.zero_or]

/-- Fields that share no bit give back what was put into them. -/
theorem extract_fill {l : Layout} (hfits : ∀ name, (l.field name).fitsWord = true)
    {parts : List (FieldName × Word)} (hseparated : l.Separates (parts.map Prod.fst))
    {name : FieldName} {value : Word} (hpart : (name, value) ∈ parts) :
    (l.field name).extract (l.fill parts) = value &&& (l.field name).mask := by
  induction parts with
  | nil => simp at hpart
  | cons part rest ih =>
      rw [Separates, List.map_cons, List.pairwise_cons] at hseparated
      obtain ⟨hhead, htail⟩ := hseparated
      rw [fill, Field.extract_or]
      rcases List.mem_cons.1 hpart with rfl | hrest
      · have hzero : (l.field name).extract (l.fill rest) = 0#32 := by
          apply extract_fill_of_disjoint
          intro part hmem
          exact hhead part.1 (List.mem_map_of_mem hmem)
        rw [hzero, BitVec.or_zero, Field.extract_place (hfits name)]
      · have hdisjoint := (hhead name (List.mem_map_of_mem (f := Prod.fst) hrest)).symm
        rw [Field.extract_place_of_disjoint hdisjoint, BitVec.zero_or, ih htail hrest]

/-- A filled word has no bit outside its fields. -/
theorem getLsbD_fill_le (l : Layout) (parts : List (FieldName × Word)) (i : Nat)
    (hbit : (l.fill parts).getLsbD i = true) :
    ∃ part ∈ parts, (l.field part.1).maskInPlace.getLsbD i = true := by
  induction parts with
  | nil => simp [fill] at hbit
  | cons part rest ih =>
      rw [fill, BitVec.getLsbD_or, Bool.or_eq_true] at hbit
      rcases hbit with hplaced | hrest
      · rw [Field.getLsbD_place, Bool.and_eq_true] at hplaced
        exact ⟨part, List.mem_cons_self, hplaced.1⟩
      · obtain ⟨other, hmem, hmask⟩ := ih hrest
        exact ⟨other, List.mem_cons_of_mem part hmem, hmask⟩

/-- Words filled by the fields of a format have no stray bits. -/
theorem fill_and_not_usedMask {l : Layout} {format : Format} {parts : List (FieldName × Word)}
    (hnames : parts.map Prod.fst = .opcode :: format.fields) :
    l.fill parts &&& ~~~l.usedMask format = 0 := by
  apply BitVec.eq_of_getLsbD_eq
  intro i hi
  refine Eq.trans ?_ BitVec.getLsbD_zero.symm
  rw [BitVec.getLsbD_and, BitVec.getLsbD_not, getLsbD_usedMask, ← hnames]
  cases hbit : (l.fill parts).getLsbD i with
  | false => rfl
  | true =>
      obtain ⟨part, hmem, hmask⟩ := l.getLsbD_fill_le parts i hbit
      have hany : ((parts.map Prod.fst).any fun name => (l.field name).maskInPlace.getLsbD i) =
          true := by
        rw [List.any_eq_true]
        exact ⟨part.1, List.mem_map_of_mem hmem, hmask⟩
      rw [hany]
      simp

/-- A word without stray bits is filled by its own fields. -/
theorem fill_fieldsOf {l : Layout} {format : Format} {word : Word}
    (hstray : word &&& ~~~l.usedMask format = 0) :
    l.fill (l.fieldsOf (.opcode :: format.fields) word) = word := by
  have hbits : ∀ (names : List FieldName) (i : Nat),
      (l.fill (l.fieldsOf names word)).getLsbD i =
        (word.getLsbD i && names.any fun name => (l.field name).maskInPlace.getLsbD i) := by
    intro names i
    induction names with
    | nil => simp [fieldsOf, fill]
    | cons name rest ih =>
        rw [fieldsOf, List.map_cons, ← fieldsOf, fill, BitVec.getLsbD_or, ih, Field.place_extract,
          BitVec.getLsbD_and, List.any_cons, Bool.and_or_distrib_left]
  apply BitVec.eq_of_getLsbD_eq
  intro i hi
  have hbit := congrArg (fun w : Word => w.getLsbD i) hstray
  simp only [BitVec.getLsbD_and, BitVec.getLsbD_not, hi, decide_true, Bool.true_and] at hbit
  rw [hbits, ← getLsbD_usedMask]
  cases hset : word.getLsbD i with
  | false => simp
  | true =>
      rw [hset] at hbit
      simpa using hbit

end Layout

/-! ## Packed operands -/

namespace Operand

/-- The fields an operand fills, each with its value.  The displacement of a
branch is zero until its label is known. -/
def parts : Operand → List (FieldName × Word)
  | .register field index => [(field, index)]
  | .immediate value => [(.imm, lowWord value)]
  | .label _ => [(.disp, 0)]
  | .indexed offset base => [(.rs, base), (.imm, lowWord offset)]

theorem bits_eq_fill (l : Layout) (operand : Operand) : operand.bits l = l.fill operand.parts := by
  cases operand with
  | register | immediate | indexed => simp [bits, parts, Layout.fill, Layout.field]
  | label => simp [bits, parts, Layout.fill, Field.place]

end Operand

/-- The parts of an instruction word: the opcode and those of its operands. -/
def Instruction.parts (i : Instruction) (operands : List Operand) : List (FieldName × Word) :=
  (.opcode, i.opcode) :: operands.flatMap Operand.parts

theorem Instruction.pack_eq_fill (l : Layout) (i : Instruction) (operands : List Operand) :
    i.pack l operands = l.fill (i.parts operands) := by
  have hfold : ∀ (start : Word),
      (operands.map (Operand.bits l)).foldl (· ||| ·) start =
        start ||| l.fill (operands.flatMap Operand.parts) := by
    induction operands with
    | nil => intro start; simp [Layout.fill]
    | cons operand rest ih =>
        intro start
        rw [List.map_cons, List.foldl_cons, ih, List.flatMap_cons, Layout.fill_append,
          Operand.bits_eq_fill, BitVec.or_assoc]
  rw [pack, hfold, parts, Layout.fill]
  rfl

/-! ## Decoding a filled word -/

/-- What a word decodes to once its instruction is known. -/
def Instruction.decoded (isa : InstructionSet) (i : Instruction) (word : Word) : Decoded where
  mnemonic := i.mnemonic
  opcode := i.opcode
  format := i.format
  registerMark := isa.registerMark
  operands := i.format.slots.map (Slot.decode isa.layout word)

/-- The words that decode: those with an opcode of the table and no stray bit. -/
theorem InstructionSet.decode?_eq_some_iff {isa : InstructionSet} {word : Word} {d : Decoded} :
    isa.decode? word = some d ↔
      ∃ i, isa.byOpcode? (isa.layout.opcode.extract word) = some i ∧
        word &&& ~~~isa.layout.usedMask i.format = 0 ∧ d = i.decoded isa word := by
  unfold decode?
  cases isa.byOpcode? (isa.layout.opcode.extract word) with
  | none => simp
  | some i =>
      simp only [Option.some.injEq, exists_eq_left', ite_eq_iff, reduceCtorEq, and_false, or_false]
      rw [eq_comm (a := d)]
      rfl

namespace InstructionSet.Consistent

variable {isa : InstructionSet} {i : Instruction} {parts : List (FieldName × Word)}

/-- Every field of an instruction word gives back what was put into it. -/
theorem extract_fill (h : isa.Consistent) (hi : i ∈ isa.instructions)
    (hnames : parts.map Prod.fst = i.format.fields) {name : FieldName} {value : Word}
    (hpart : (name, value) ∈ (.opcode, i.opcode) :: parts) :
    (isa.layout.field name).extract (isa.layout.fill ((.opcode, i.opcode) :: parts)) =
      value &&& (isa.layout.field name).mask := by
  apply Layout.extract_fill h.fits _ hpart
  rw [List.map_cons, hnames]
  exact h.separated i hi

/-- Filling the opcode and the fields of its format makes a word of that
instruction. -/
theorem decode?_fill (h : isa.Consistent) (hi : i ∈ isa.instructions)
    (hnames : parts.map Prod.fst = i.format.fields) :
    isa.decode? (isa.layout.fill ((.opcode, i.opcode) :: parts)) =
      some (i.decoded isa (isa.layout.fill ((.opcode, i.opcode) :: parts))) := by
  have hopcode : isa.layout.opcode.extract (isa.layout.fill ((.opcode, i.opcode) :: parts)) =
      i.opcode := by
    have hextract := h.extract_fill hi hnames List.mem_cons_self
    rw [Field.and_mask_of_le (h.fits .opcode) (BitVec.le_def.1 (h.opcode_le i hi))] at hextract
    exact hextract
  rw [decode?_eq_some_iff]
  refine ⟨i, ?_, Layout.fill_and_not_usedMask ?_, rfl⟩
  · rw [hopcode, h.byOpcode?_of_mem hi]
  · rw [List.map_cons, hnames]

end InstructionSet.Consistent

end Asm32
