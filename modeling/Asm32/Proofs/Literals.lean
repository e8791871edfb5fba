import Asm32.Proofs.Consistency
import Asm32.Proofs.Encoding
import Asm32.Proofs.NumeralSyntax

/-!
# Numbers in instructions

Which tokens are numbers, and what becomes of a number on its way into a word.

* `Literal.Signed` is the syntax of numbers with the integer each stands for;
  `Literal.value?` reads exactly these (`value?_eq_some_iff`).  The marks `h` and
  `b` come last and are never decimal digits, so at most one base is possible.
* A number is cut twice, to 64 bits when it is read and to its field when it is
  packed.  What is left is its residue in the field (`Field.place_lowWord_ofInt`).
* `Slot.NumberAt` are the operands with a number in them, and `encode_number_iff`
  compares the encoding of a number with that of a zero in its place.
-/

namespace Asm32

namespace Literal

/-! ## Number literals -/

/-- The text is a number without a sign: hex digits and `h`, binary digits and
`b`, or decimal digits. -/
inductive Unsigned : List Char → Nat → Prop where
  | hex {digits n} (h : Text.IsNumeral 16 digits n) : Unsigned (digits ++ ['h']) n
  | binary {digits n} (h : Text.IsNumeral 2 digits n) : Unsigned (digits ++ ['b']) n
  | decimal {digits n} (h : Text.IsNumeral 10 digits n) : Unsigned digits n

/-- The text is a number with at most one sign. -/
inductive Signed : List Char → Int → Prop where
  | bare {text n} (h : Unsigned text n) : Signed text n
  | plus {text n} (h : Unsigned text n) : Signed ('+' :: text) n
  | minus {text n} (h : Unsigned text n) : Signed ('-' :: text) (-n)

theorem magnitude?_eq_some_iff {text : List Char} {n : Nat} :
    magnitude? text = some n ↔ Unsigned text n := by
  constructor
  · intro h
    unfold magnitude? splitBase at h
    split at h
    next hlast =>
      obtain ⟨digits, rfl⟩ := List.getLast?_eq_some_iff.1 hlast
      rw [List.dropLast_concat] at h
      exact .hex ((Text.digitsValue?_eq_some_iff (by decide)).1 h)
    next hlast =>
      obtain ⟨digits, rfl⟩ := List.getLast?_eq_some_iff.1 hlast
      rw [List.dropLast_concat] at h
      exact .binary ((Text.digitsValue?_eq_some_iff (by decide)).1 h)
    next => exact .decimal ((Text.digitsValue?_eq_some_iff (by decide)).1 h)
  · intro h
    unfold magnitude?
    cases h with
    | hex h =>
        rw [← Text.digitsValue?_eq_some_iff (by decide)] at h
        simpa [splitBase] using h
    | binary h =>
        rw [← Text.digitsValue?_eq_some_iff (by decide)] at h
        simpa [splitBase] using h
    | decimal h =>
        -- A decimal number ends in a digit, so neither mark is cut off.
        have hbase : splitBase text = (text, 10) := by
          unfold splitBase
          split
          next hlast =>
            obtain ⟨digit, hdigit⟩ := h.isDigit_of_mem (List.mem_of_getLast? hlast)
            exact absurd rfl (hdigit.ne (by decide) (by decide))
          next hlast =>
            obtain ⟨digit, hdigit⟩ := h.isDigit_of_mem (List.mem_of_getLast? hlast)
            exact absurd rfl (hdigit.ne (by decide) (by decide))
          next => rfl
        rw [hbase]
        show Text.digitsValue? 10 text = some n
        exact (Text.digitsValue?_eq_some_iff (by decide)).2 h

/-- A text that starts with a digit has no sign. -/
theorem splitSign_numeral {base : Nat} (hbase : base ≤ 16) {digits : List Char} {n : Nat}
    (h : Text.IsNumeral base digits n) (rest : List Char) :
    splitSign (digits ++ rest) = (false, digits ++ rest) := by
  obtain ⟨c, others, rfl⟩ := List.exists_cons_of_ne_nil h.1
  obtain ⟨digit, hdigit⟩ := h.isDigit_of_mem List.mem_cons_self
  have hminus : c ≠ '-' := hdigit.ne hbase rfl
  have hplus : c ≠ '+' := hdigit.ne hbase rfl
  rw [List.cons_append]
  unfold splitSign
  split
  next heq => exact absurd (List.cons.inj heq).1 hminus
  next heq => exact absurd (List.cons.inj heq).1 hplus
  next => rfl

theorem Unsigned.splitSign_eq {text : List Char} {n : Nat} (h : Unsigned text n) :
    splitSign text = (false, text) := by
  cases h with
  | hex h => exact splitSign_numeral (by decide) h ['h']
  | binary h => exact splitSign_numeral (by decide) h ['b']
  | decimal h => simpa using splitSign_numeral (by decide) h []

theorem value?_eq_some_iff {text : List Char} {value : Int} :
    value? text = some value ↔ Signed text value := by
  constructor
  · intro h
    obtain ⟨n, hn, rfl⟩ := Option.map_eq_some_iff.1 h
    rw [magnitude?_eq_some_iff] at hn
    unfold splitSign at hn ⊢
    split at hn
    · exact .minus hn
    · exact .plus hn
    · exact .bare hn
  · intro h
    cases h with
    | bare h => simp [value?, h.splitSign_eq, magnitude?_eq_some_iff.2 h]
    | plus h => simp [value?, splitSign, magnitude?_eq_some_iff.2 h]
    | minus h => simp [value?, splitSign, magnitude?_eq_some_iff.2 h]

end Literal

/-! ## The number that is kept -/

theorem eq_ofInt_iff_signedResidue {value : Int64} {n : Int} :
    value = Int64.ofInt n ↔ SignedResidue 64 n value.toInt := by
  rw [signedResidue_iff (by decide), ← Int64.toInt_inj, Int64.toInt_ofInt]
  rfl

/-- A field keeps of a number its residue modulo the size of the field. -/
theorem Field.place_lowWord_ofInt {f : Field} (hpos : 1 ≤ f.width.toNat)
    (hle : f.width.toNat ≤ 32) (n : Int) :
    f.place (lowWord (Int64.ofInt n)) =
      BitVec.ofInt 32 (n % 2 ^ f.width.toNat) <<< f.shift.toNat := by
  -- Where the field lies does not matter for what it keeps.
  have hfits : (⟨0, f.width⟩ : Field).fitsWord = true := fitsWord_iff.2 ⟨hpos, by simpa using hle⟩
  have hvalue : (((BitVec.ofInt 32 n &&& f.mask).toNat : Nat) : Int) = n % 2 ^ f.width.toNat :=
    toNat_ofInt_and_mask hfits n
  have hcut : BitVec.ofInt 32 n &&& f.mask = BitVec.ofInt 32 (n % 2 ^ f.width.toNat) := by
    rw [← hvalue, BitVec.ofInt_natCast, BitVec.ofNat_toNat, BitVec.setWidth_eq]
  rw [lowWord_ofInt, place, hcut]

/-! ## Operands with a number -/

namespace Slot

variable {isa : InstructionSet} {slots : List Slot} {before after : List RawOperand}
  {operands : List Operand}

/-- Operands are read in two parts as in one. -/
theorem readsAll_append_iff :
    ReadsAll isa slots (before ++ after) operands ↔
      ∃ front back read rest, slots = front ++ back ∧ operands = read ++ rest ∧
        ReadsAll isa front before read ∧ ReadsAll isa back after rest := by
  constructor
  · intro h
    induction before generalizing slots operands with
    | nil => exact ⟨[], slots, [], operands, rfl, rfl, .nil, h⟩
    | cons raw before ih =>
        cases h with
        | cons hhead htail =>
            obtain ⟨front, back, read, rest, rfl, rfl, hfront, hback⟩ := ih htail
            exact ⟨_ :: front, back, _ :: read, rest, rfl, rfl, .cons hhead hfront, hback⟩
  · rintro ⟨front, back, read, rest, rfl, rfl, hfront, hback⟩
    induction hfront with
    | nil => exact hback
    | cons hhead _ ih => exact .cons hhead ih

/-- The operands of a slot that have a number in them, given by the number. -/
inductive NumberAt : Slot → (String → RawOperand) → Prop where
  | immediate : NumberAt .immediate .plain
  | indexed (base : String) : NumberAt .indexed fun token => .indexed (some token) base

end Slot

/-- The operand with another value in place of its number. -/
def Operand.withValue (value : Int64) : Operand → Operand
  | .immediate _ => .immediate value
  | .indexed _ base => .indexed value base
  | operand => operand

theorem Operand.label?_withValue (value : Int64) (operand : Operand) :
    (operand.withValue value).label? = operand.label? := by
  cases operand <;> rfl

namespace Slot

variable {slot : Slot} {write : String → RawOperand} {token : String} {value : Int64}
  {operand : Operand}

/-- Where one number is read, every number is. -/
theorem Reads.withValue {other : String} (hslot : slot.NumberAt write)
    (hvalue : parseImmediate? token = some value) (h : Reads isa slot (write other) operand) :
    Reads isa slot (write token) (operand.withValue value) := by
  cases hslot with
  | immediate =>
      cases h with
      | immediate => exact .immediate hvalue
  | indexed base =>
      cases h with
      | indexed _ hbase => exact .indexed hvalue hbase

/-- The value of a number is the value in its operand. -/
theorem Reads.eq_of_number (hslot : slot.NumberAt write)
    (hvalue : parseImmediate? token = some value) (h : Reads isa slot (write token) operand) :
    operand = .immediate value ∨ ∃ base, operand = .indexed value base := by
  cases hslot with
  | immediate =>
      cases h with
      | immediate hread =>
          obtain rfl := Option.some.inj (hvalue.symm.trans hread)
          exact .inl rfl
  | indexed =>
      cases h with
      | @indexed _ _ _ base hread =>
          obtain rfl := Option.some.inj (hvalue.symm.trans hread)
          exact .inr ⟨base, rfl⟩

/-- A number goes to the immediate field. -/
theorem Reads.mem_parts (hslot : slot.NumberAt write) (hvalue : parseImmediate? token = some value)
    (h : Reads isa slot (write token) operand) : (.imm, lowWord value) ∈ operand.parts := by
  rcases h.eq_of_number hslot hvalue with rfl | ⟨base, rfl⟩
  · simp [Operand.parts]
  · simp [Operand.parts]

/-- In place of a zero, a number adds its own bits to the word. -/
theorem Reads.fill_withValue (hslot : slot.NumberAt write) (h : Reads isa slot (write "0") operand)
    (value : Int64) :
    isa.layout.fill (operand.withValue value).parts =
      isa.layout.fill operand.parts ||| isa.layout.imm.place (lowWord value) := by
  have hzero : parseImmediate? "0" = some 0 := rfl
  have hplace : isa.layout.imm.place (lowWord 0) = 0#32 := by simp [lowWord, Field.place]
  rcases h.eq_of_number hslot hzero with rfl | ⟨base, rfl⟩
  · simp [Operand.withValue, Operand.parts, Layout.fill, Layout.field, hplace]
  · simp [Operand.withValue, Operand.parts, Layout.fill, Layout.field, hplace]

/-- The operand in the middle is read as its own slot demands. -/
theorem ReadsAll.split {raw : RawOperand} (h : ReadsAll isa slots (before ++ raw :: after) operands)
    (hslot : slots[before.length]? = some slot) :
    ∃ front back read operand rest, slots = front ++ slot :: back ∧
      operands = read ++ operand :: rest ∧ ReadsAll isa front before read ∧
      Reads isa slot raw operand ∧ ReadsAll isa back after rest := by
  obtain ⟨front, _, read, _, rfl, rfl, hfront, hback⟩ := readsAll_append_iff.1 h
  cases hback with
  | @cons slot' _ operand back _ rest hhead htail =>
      rw [hfront.length_eq, List.getElem?_append_right (Nat.le_refl _), Nat.sub_self,
        List.getElem?_cons_zero, Option.some.injEq] at hslot
      subst hslot
      exact ⟨front, back, read, operand, rest, rfl, rfl, hfront, hhead, htail⟩

end Slot

/-! ## Instructions with a number -/

namespace InstructionSet

variable {isa : InstructionSet} {mnemonic : String} {i : Instruction} {slot : Slot}
  {write : String → RawOperand} {token : String} {value : Int64} {before after : List RawOperand}
  {address : Nat} {encoded : Encoded}

/-- Where one number is encoded, every number is, and only the value differs. -/
theorem encode_withValue {other : String} (hlookup : isa.lookup? mnemonic = some i)
    (hslot : i.format.slots[before.length]? = some slot) (hnumber : slot.NumberAt write)
    (h : isa.encode mnemonic (before ++ write other :: after) address = .ok encoded) :
    ∃ read operand rest, Slot.Reads isa slot (write other) operand ∧
      encoded.word = i.pack isa.layout (read ++ operand :: rest) ∧
      ∀ token value, parseImmediate? token = some value →
        isa.encode mnemonic (before ++ write token :: after) address =
          .ok ⟨i.pack isa.layout (read ++ operand.withValue value :: rest), encoded.pending⟩ := by
  obtain ⟨i', operands, hlookup', hreads, rfl⟩ := encode_eq_ok_iff.1 h
  obtain rfl : i = i' := Option.some.inj (hlookup.symm.trans hlookup')
  obtain ⟨front, back, read, operand, rest, hslots, rfl, hfront, hhead, htail⟩ :=
    hreads.split hslot
  refine ⟨read, operand, rest, hhead, rfl, fun token value hvalue => ?_⟩
  refine encode_eq_ok_iff.2 ⟨i, read ++ operand.withValue value :: rest, hlookup, ?_, ?_⟩
  · rw [hslots, Slot.readsAll_append_iff]
    exact ⟨front, _, read, _, rfl, rfl, hfront, .cons (hhead.withValue hnumber hvalue) htail⟩
  · simp only [List.findSome?_append, List.findSome?_cons, Operand.label?_withValue]

/-- In place of a zero, a number adds its own bits to the encoding. -/
theorem encode_number_iff (hlookup : isa.lookup? mnemonic = some i)
    (hslot : i.format.slots[before.length]? = some slot) (hnumber : slot.NumberAt write)
    (hvalue : parseImmediate? token = some value) :
    isa.encode mnemonic (before ++ write token :: after) address = .ok encoded ↔
      ∃ zero, isa.encode mnemonic (before ++ write "0" :: after) address = .ok zero ∧
        encoded = ⟨zero.word ||| isa.layout.imm.place (lowWord value), zero.pending⟩ := by
  have hzero : ∀ zero, isa.encode mnemonic (before ++ write "0" :: after) address = .ok zero →
      isa.encode mnemonic (before ++ write token :: after) address =
        .ok ⟨zero.word ||| isa.layout.imm.place (lowWord value), zero.pending⟩ := by
    intro zero h
    obtain ⟨read, operand, rest, hreads, hword, hother⟩ := encode_withValue hlookup hslot hnumber h
    rw [hother token value hvalue, hword]
    simp only [Instruction.pack_eq_fill, Instruction.parts, List.flatMap_append,
      List.flatMap_cons, Layout.fill, Layout.fill_append, hreads.fill_withValue hnumber]
    congr 2
    ac_rfl
  constructor
  · intro h
    obtain ⟨_, _, _, _, _, hother⟩ := encode_withValue hlookup hslot hnumber h
    have hencode := hother "0" 0 rfl
    exact ⟨_, hencode, Except.ok.inj (h.symm.trans (hzero _ hencode))⟩
  · rintro ⟨zero, h, rfl⟩
    exact hzero zero h

/-- The immediate field of an encoding has the low bits of its number. -/
theorem Consistent.extract_imm_encode (hconsistent : isa.Consistent)
    (hlookup : isa.lookup? mnemonic = some i)
    (hslot : i.format.slots[before.length]? = some slot) (hnumber : slot.NumberAt write)
    (hvalue : parseImmediate? token = some value)
    (h : isa.encode mnemonic (before ++ write token :: after) address = .ok encoded) :
    isa.layout.imm.extract encoded.word = lowWord value &&& isa.layout.imm.mask := by
  obtain ⟨i', operands, hlookup', hreads, rfl⟩ := encode_eq_ok_iff.1 h
  obtain rfl : i = i' := Option.some.inj (hlookup.symm.trans hlookup')
  obtain ⟨_, _, read, operand, rest, _, rfl, _, hhead, _⟩ := hreads.split hslot
  have hpart : (FieldName.imm, lowWord value) ∈ i.parts (read ++ operand :: rest) :=
    List.mem_cons_of_mem _
      (List.mem_flatMap.2 ⟨operand, by simp, hhead.mem_parts hnumber hvalue⟩)
  have hextract := hconsistent.extract_fill (mem_of_lookup? hlookup).1 hreads.map_fst_parts hpart
  rw [← Instruction.parts, ← Instruction.pack_eq_fill] at hextract
  exact hextract

end InstructionSet

/-- Numbers are read exactly, however long they are.  A token is read as a number
if it is one, and the value is the residue of the number in 64 bits.  An
instruction with a number has in its immediate field the residue of the number
modulo the size of the field: it differs from the instruction with a zero in just
these bits, and in a validated set the field gives them back. -/
theorem parseImmediate?_exact :
    (∀ token, (parseImmediate? token).isSome = true ↔ ∃ n, Literal.Signed token.toList n) ∧
      ∀ (token : String) (n : Int), Literal.Signed token.toList n →
        (∃ value, parseImmediate? token = some value ∧ SignedResidue 64 n value.toInt) ∧
        ∀ (isa : InstructionSet) (mnemonic : String) (i : Instruction) (slot : Slot)
          (write : String → RawOperand) (before after : List RawOperand) (address : Nat)
          (encoded : Encoded),
          1 ≤ isa.layout.imm.width.toNat → isa.layout.imm.width.toNat ≤ 32 →
          isa.lookup? mnemonic = some i → i.format.slots[before.length]? = some slot →
          slot.NumberAt write →
          (isa.encode mnemonic (before ++ write token :: after) address = .ok encoded ↔
            ∃ zero, isa.encode mnemonic (before ++ write "0" :: after) address = .ok zero ∧
              encoded = ⟨zero.word |||
                BitVec.ofInt 32 (n % 2 ^ isa.layout.imm.width.toNat) <<< isa.layout.imm.shift.toNat,
                zero.pending⟩) ∧
          (isa.validate = .ok () →
            isa.encode mnemonic (before ++ write token :: after) address = .ok encoded →
            ((isa.layout.imm.extract encoded.word).toNat : Int) =
              n % 2 ^ isa.layout.imm.width.toNat) := by
  constructor
  · intro token
    rw [Option.isSome_iff_exists]
    simp only [parseImmediate?_eq_some_iff, Literal.value?_eq_some_iff]
    constructor
    · rintro ⟨_, n, hn, _⟩
      exact ⟨n, hn⟩
    · rintro ⟨n, hn⟩
      exact ⟨_, n, hn, rfl⟩
  · intro token n hn
    have hvalue : parseImmediate? token = some (Int64.ofInt n) :=
      parseImmediate?_eq_some_iff.2 ⟨n, Literal.value?_eq_some_iff.2 hn, rfl⟩
    refine ⟨⟨_, hvalue, eq_ofInt_iff_signedResidue.1 rfl⟩, ?_⟩
    intro isa mnemonic i slot write before after address encoded hpos hle hlookup hslot hnumber
    constructor
    · rw [InstructionSet.encode_number_iff hlookup hslot hnumber hvalue,
        Field.place_lowWord_ofInt hpos hle]
    · intro hvalid hencode
      have hconsistent := InstructionSet.validate_eq_ok_iff.1 hvalid
      rw [hconsistent.extract_imm_encode hlookup hslot hnumber hvalue hencode, lowWord_ofInt]
      exact Field.toNat_ofInt_and_mask (hconsistent.fits .imm) n

/-- A negative number of more than 64 bits, with digits in either case. -/
theorem parseImmediate?_exact_hex :
    (parseImmediate? "-1000000000000beEFh").isSome = true ∧
      InstructionSet.basic.encode "addi"
        [.plain "r1", .plain "r2", .plain "-1000000000000beEFh"] 0 = .ok ⟨0x20224111#32, none⟩ := by
  have hn : Literal.Signed "-1000000000000beEFh".toList (-0x1000000000000beef) :=
    Literal.value?_eq_some_iff.1 rfl
  have hlookup : InstructionSet.basic.lookup? "addi" = some ⟨"addi", 0x08, .rri⟩ := by decide
  have hzero : InstructionSet.basic.encode "addi" [.plain "r1", .plain "r2", .plain "0"] 0 =
      .ok ⟨0x20220000#32, none⟩ := rfl
  have hencode := ((parseImmediate?_exact.2 _ _ hn).2 _ _ _ .immediate _ [.plain "r1", .plain "r2"]
    [] 0 ⟨0x20224111#32, none⟩ (by decide) (by decide) hlookup rfl .immediate).1
  exact ⟨(parseImmediate?_exact.1 _).2 ⟨_, hn⟩, hencode.2 ⟨_, hzero, by decide⟩⟩

end Asm32
