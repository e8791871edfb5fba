import Asm32.Proofs.Consistency
import Asm32.Proofs.Encoding
import Asm32.Proofs.NumeralSyntax

/-!
# Which operand is at fault

When an instruction can be encoded, and what is reported when it cannot.

* `Slot.Accepts` says which operands match a slot, without reading them, and
  `exists_reads_iff_accepts` ties it to reading.
* `Slot.Reports` is the error that an operand at fault stands for, by the kind of
  operand that its slot wants.
* `Slot.Blames` is the error of the leftmost operand that does not match its
  slot.  Reading operands from left to right ends in exactly this error
  (`readAll_eq_error_iff`).
* `encode_exact` puts the outcomes of an encoding in order: an unknown mnemonic,
  a wrong number of operands, an operand at fault, or a word.
-/

namespace Asm32

/-! ## Registers -/

/-- The token is the register mark with a decimal number that the field can
hold. -/
def IsRegister (mark : Char) (field : Field) (token : String) : Prop :=
  ∃ digits n, token.toList = mark :: digits ∧ Text.IsNumeral 10 digits n ∧ n < 2 ^ field.width.toNat

theorem registerNumber?_eq_some_iff {mark : Char} {token : String} {n : Nat} :
    registerNumber? mark token = some n ↔
      ∃ digits, token.toList = mark :: digits ∧ Text.IsNumeral 10 digits n := by
  unfold registerNumber?
  cases token.toList with
  | nil => simp
  | cons c digits =>
      by_cases hc : c = mark
      · simp [hc, Text.digitsValue?_eq_some_iff]
      · simp [hc]

theorem exists_parseRegister?_iff {mark : Char} {field : Field} {token : String}
    (hfits : field.fitsWord = true) :
    (∃ index, parseRegister? mark field token = some index) ↔ IsRegister mark field token := by
  have hmax : field.maxValue.toNat = 2 ^ field.width.toNat - 1 := Field.toNat_mask hfits
  have hpos := Nat.two_pow_pos field.width.toNat
  simp only [parseRegister?_eq_some_iff, registerNumber?_eq_some_iff]
  constructor
  · rintro ⟨index, ⟨digits, htoken, hdigits⟩, hle⟩
    exact ⟨digits, index.toNat, htoken, hdigits, by omega⟩
  · rintro ⟨digits, n, htoken, hdigits, hlt⟩
    have hword := field.maxValue.isLt
    have hindex : (BitVec.ofNat 32 n).toNat = n :=
      (BitVec.toNat_ofNat n 32).trans (Nat.mod_eq_of_lt (by omega))
    exact ⟨BitVec.ofNat 32 n, ⟨digits, htoken, hindex.symm ▸ hdigits⟩, by omega⟩

/-! ## Operands -/

/-- How an operand stands in the source. -/
inductive RawOperand.Spelled : RawOperand → String → Prop where
  | plain (word : String) : Spelled (.plain word) word
  | base (base : String) : Spelled (.indexed none base) ("(" ++ base ++ ")")
  | offset (offset base : String) :
      Spelled (.indexed (some offset) base) (offset ++ "(" ++ base ++ ")")

theorem RawOperand.spelled_iff {raw : RawOperand} {text : String} :
    raw.Spelled text ↔ text = raw.text := by
  constructor
  · rintro (_ | _ | _) <;> simp [RawOperand.text]
  · rintro rfl
    rcases raw with word | ⟨_ | offset, base⟩
    · exact .plain word
    · simpa [RawOperand.text] using Spelled.base base
    · exact .offset offset base

namespace Slot

/-- The operands that match a slot. -/
inductive Accepts (isa : InstructionSet) : Slot → RawOperand → Prop where
  | register {field token}
      (hregister : IsRegister isa.registerMark (isa.layout.field field) token) :
      Accepts isa (.register field) (.plain token)
  | immediate {token} (hnumber : (parseImmediate? token).isSome = true) :
      Accepts isa .immediate (.plain token)
  | label {token} (hname : isIdentifier token = true) : Accepts isa .label (.plain token)
  | indexed {offset base}
      (hoffset : ∀ token, offset = some token → (parseImmediate? token).isSome = true)
      (hbase : IsRegister isa.registerMark isa.layout.rs base) :
      Accepts isa .indexed (.indexed offset base)

/-- The error for an operand at fault names what the slot wants, and has the
operand as it stands in the source. -/
inductive Reports : Slot → RawOperand → EncodeError → Prop where
  | register {field raw text} (htext : raw.Spelled text) :
      Reports (.register field) raw (.invalidRegister text)
  | immediate {raw text} (htext : raw.Spelled text) :
      Reports .immediate raw (.invalidImmediate text)
  | label {raw text} (htext : raw.Spelled text) : Reports .label raw (.invalidLabel text)
  | indexed {raw text} (htext : raw.Spelled text) :
      Reports .indexed raw (.invalidIndexedAddress text)

/-- The error is that of the leftmost operand that does not match its slot. -/
def Blames (isa : InstructionSet) (slots : List Slot) (raws : List RawOperand)
    (e : EncodeError) : Prop :=
  ∃ front slot back before raw after, slots = front ++ slot :: back ∧
    raws = before ++ raw :: after ∧ List.Forall₂ (Accepts isa) front before ∧
    ¬Accepts isa slot raw ∧ Reports slot raw e

variable {isa : InstructionSet} {slot : Slot} {raw : RawOperand} {slots : List Slot}
  {raws : List RawOperand} {e : EncodeError}

theorem reports_iff : Reports slot raw e ↔ e = slot.fault raw.text := by
  constructor
  · rintro (htext | htext | htext | htext) <;> rw [RawOperand.spelled_iff.1 htext] <;> rfl
  · rintro rfl
    have htext : raw.Spelled raw.text := RawOperand.spelled_iff.2 rfl
    cases slot with
    | register => exact .register htext
    | immediate => exact .immediate htext
    | label => exact .label htext
    | indexed => exact .indexed htext

theorem isSome_parseOffset?_iff {offset : Option String} :
    (parseOffset? offset).isSome = true ↔
      ∀ token, offset = some token → (parseImmediate? token).isSome = true := by
  cases offset <;> simp [parseOffset?]

/-- An operand is read exactly if it matches its slot. -/
theorem exists_reads_iff_accepts (h : isa.Consistent) :
    (∃ operand, Reads isa slot raw operand) ↔ Accepts isa slot raw := by
  constructor
  · rintro ⟨operand, hreads⟩
    cases hreads with
    | register hregister =>
        exact .register ((exists_parseRegister?_iff (h.fits _)).1 ⟨_, hregister⟩)
    | immediate hvalue => exact .immediate (Option.isSome_of_eq_some hvalue)
    | label hname => exact .label hname
    | indexed hoffset hbase =>
        exact .indexed (isSome_parseOffset?_iff.1 (Option.isSome_of_eq_some hoffset))
          ((exists_parseRegister?_iff (h.fits .rs)).1 ⟨_, hbase⟩)
  · intro haccepts
    cases haccepts with
    | register hregister =>
        obtain ⟨index, hread⟩ := (exists_parseRegister?_iff (h.fits _)).2 hregister
        exact ⟨_, .register hread⟩
    | immediate hnumber =>
        obtain ⟨value, hvalue⟩ := Option.isSome_iff_exists.1 hnumber
        exact ⟨_, .immediate hvalue⟩
    | label hname => exact ⟨_, .label hname⟩
    | indexed hoffset hbase =>
        obtain ⟨value, hvalue⟩ := Option.isSome_iff_exists.1 (isSome_parseOffset?_iff.2 hoffset)
        obtain ⟨index, hread⟩ := (exists_parseRegister?_iff (h.fits .rs)).2 hbase
        exact ⟨_, .indexed hvalue hread⟩

theorem read_eq_error_iff (h : isa.Consistent) :
    slot.read isa raw = .error e ↔ ¬Accepts isa slot raw ∧ Reports slot raw e := by
  rw [← exists_reads_iff_accepts h, reports_iff]
  simp only [← read?_eq_some_iff, read]
  cases slot.read? isa raw <;> simp [eq_comm]

theorem exists_readsAll_iff (h : isa.Consistent) :
    (∃ operands, ReadsAll isa slots raws operands) ↔ List.Forall₂ (Accepts isa) slots raws := by
  constructor
  · rintro ⟨operands, hreads⟩
    induction hreads with
    | nil => exact .nil
    | cons hhead _ ih => exact .cons ((exists_reads_iff_accepts h).1 ⟨_, hhead⟩) ih
  · intro haccepts
    induction haccepts with
    | nil => exact ⟨[], .nil⟩
    | cons hhead _ ih =>
        obtain ⟨operand, hread⟩ := (exists_reads_iff_accepts h).2 hhead
        obtain ⟨operands, hreads⟩ := ih
        exact ⟨_, .cons hread hreads⟩

/-! ## The leftmost fault -/

theorem not_blames_nil : ¬Blames isa [] raws e := by
  rintro ⟨front, slot, back, _, _, _, hslots, _⟩
  simp at hslots

theorem not_blames_of_no_operand : ¬Blames isa slots [] e := by
  rintro ⟨_, _, _, before, raw, after, _, hraws, _⟩
  simp at hraws

/-- The first operand is at fault, or it matches and the fault is behind it. -/
theorem blames_cons_iff :
    Blames isa (slot :: slots) (raw :: raws) e ↔
      ¬Accepts isa slot raw ∧ Reports slot raw e ∨
        Accepts isa slot raw ∧ Blames isa slots raws e := by
  constructor
  · rintro ⟨front, slot', back, before, raw', after, hslots, hraws, hfront, hfault⟩
    cases hfront with
    | nil =>
        rw [List.nil_append, List.cons.injEq] at hslots hraws
        obtain ⟨rfl, rfl⟩ := hslots
        obtain ⟨rfl, rfl⟩ := hraws
        exact .inl hfault
    | cons hhead htail =>
        rw [List.cons_append, List.cons.injEq] at hslots hraws
        obtain ⟨rfl, rfl⟩ := hslots
        obtain ⟨rfl, rfl⟩ := hraws
        exact .inr ⟨hhead, _, _, _, _, _, _, rfl, rfl, htail, hfault⟩
  · rintro (hfault | ⟨hhead, front, slot', back, before, raw', after, rfl, rfl, hfront, hfault⟩)
    · exact ⟨[], _, _, [], _, _, rfl, rfl, .nil, hfault⟩
    · exact ⟨_ :: front, _, _, _ :: before, _, _, rfl, rfl, .cons hhead hfront, hfault⟩

/-- Reading from left to right ends in the leftmost fault. -/
theorem readAll_eq_error_iff (h : isa.Consistent) :
    readAll isa slots raws = .error e ↔ Blames isa slots raws e := by
  induction slots generalizing raws with
  | nil => simp [readAll, not_blames_nil]
  | cons slot slots ih =>
      cases raws with
      | nil => simp [readAll, not_blames_of_no_operand]
      | cons raw raws =>
          rw [readAll, blames_cons_iff, ← ih, ← read_eq_error_iff h,
            ← exists_reads_iff_accepts h]
          simp only [← read_eq_ok_iff]
          cases slot.read isa raw with
          | error fault => simp
          | ok operand => cases readAll isa slots raws <;> simp

end Slot

/-! ## Instructions -/

namespace InstructionSet

variable {isa : InstructionSet} {mnemonic : String} {raws : List RawOperand} {address : Nat}
  {i : Instruction} {e : EncodeError}

theorem exists_encode_iff (h : isa.Consistent) (hlookup : isa.lookup? mnemonic = some i) :
    (∃ encoded, isa.encode mnemonic raws address = .ok encoded) ↔
      List.Forall₂ (Slot.Accepts isa) i.format.slots raws := by
  simp only [encode_eq_ok_iff, ← Slot.exists_readsAll_iff h]
  constructor
  · rintro ⟨_, i', operands, hlookup', hreads, _⟩
    obtain rfl : i = i' := Option.some.inj (hlookup.symm.trans hlookup')
    exact ⟨operands, hreads⟩
  · rintro ⟨operands, hreads⟩
    exact ⟨_, i, operands, hlookup, hreads, rfl⟩

/-- With the right number of operands, only an operand can be at fault. -/
theorem encode_eq_error_iff (h : isa.Consistent) (hlookup : isa.lookup? mnemonic = some i)
    (harity : raws.length = i.format.arity) :
    isa.encode mnemonic raws address = .error e ↔ Slot.Blames isa i.format.slots raws e := by
  rw [← Slot.readAll_eq_error_iff h]
  simp only [encode, hlookup, harity, if_true]
  cases Slot.readAll isa i.format.slots raws <;> simp

theorem encode_of_arity_ne (hlookup : isa.lookup? mnemonic = some i)
    (harity : raws.length ≠ i.format.arity) :
    isa.encode mnemonic raws address =
      .error (.arity mnemonic i.format.arity raws.length) := by
  simp only [encode, hlookup, harity, if_false]

theorem encode_eq_arity_iff (h : isa.Consistent) (hlookup : isa.lookup? mnemonic = some i) :
    isa.encode mnemonic raws address = .error (.arity mnemonic i.format.arity raws.length) ↔
      raws.length ≠ i.format.arity := by
  constructor
  · intro herror harity
    obtain ⟨_, _, _, _, _, _, _, _, _, _, hfault⟩ :=
      (encode_eq_error_iff h hlookup harity).1 herror
    cases hfault
  · exact encode_of_arity_ne hlookup

theorem encode_eq_unknownInstruction_iff (h : isa.Consistent) :
    isa.encode mnemonic raws address = .error (.unknownInstruction mnemonic) ↔
      ∀ i ∈ isa.instructions, i.mnemonic ≠ mnemonic := by
  constructor
  · intro herror i hi hmnemonic
    have hlookup := h.lookup?_eq_some_iff.2 ⟨hi, hmnemonic⟩
    by_cases harity : raws.length = i.format.arity
    · obtain ⟨_, _, _, _, _, _, _, _, _, _, hfault⟩ :=
        (encode_eq_error_iff h hlookup harity).1 herror
      cases hfault
    · rw [encode_of_arity_ne hlookup harity] at herror
      cases herror
  · intro hunknown
    have hlookup : isa.lookup? mnemonic = none := by simpa [lookup?] using hunknown
    simp only [encode, hlookup]

/-- The outcomes of an encoding, in the order in which they are looked for: the
mnemonic is unknown, the number of operands is wrong, every operand matches its
slot and there is a word, or the leftmost operand that does not is blamed. -/
theorem encode_exact (hvalid : isa.validate = .ok ()) (mnemonic : String) (raws : List RawOperand)
    (address : Nat) :
    (isa.encode mnemonic raws address = .error (.unknownInstruction mnemonic) ↔
      ∀ i ∈ isa.instructions, i.mnemonic ≠ mnemonic) ∧
    ∀ i ∈ isa.instructions, i.mnemonic = mnemonic →
      (isa.encode mnemonic raws address = .error (.arity mnemonic i.format.arity raws.length) ↔
        raws.length ≠ i.format.arity) ∧
      (raws.length = i.format.arity →
        ((∃ encoded, isa.encode mnemonic raws address = .ok encoded) ↔
          List.Forall₂ (Slot.Accepts isa) i.format.slots raws) ∧
        ∀ e, isa.encode mnemonic raws address = .error e ↔
          Slot.Blames isa i.format.slots raws e) := by
  have h := validate_eq_ok_iff.1 hvalid
  refine ⟨encode_eq_unknownInstruction_iff h, fun i hi hmnemonic => ?_⟩
  have hlookup := h.lookup?_eq_some_iff.2 ⟨hi, hmnemonic⟩
  refine ⟨encode_eq_arity_iff h hlookup, fun harity => ?_⟩
  exact ⟨exists_encode_iff h hlookup, fun e => encode_eq_error_iff h hlookup harity⟩

/-- A load whose base register is one too high for its field: the operand is
blamed as a whole, and the one before it is not. -/
theorem encode_exact_load :
    extended.validate = .ok () ∧
      extended.encode "ld" [.plain "r3", .indexed (some "-8") "r16"] 0 =
        .error (.invalidIndexedAddress "-8(r16)") := by
  have hvalid : extended.validate = .ok () := validate_ofVariant .extended
  have hload : ⟨"ld", 0x18, .mem⟩ ∈ extended.instructions := by decide
  have hnumeral : Text.IsNumeral 10 ['3'] 3 :=
    (Text.digitsValue?_eq_some_iff (by decide)).1 (by decide)
  have hfront : Slot.Accepts extended (.register .rd) (.plain "r3") :=
    .register ⟨['3'], 3, rfl, hnumeral, by decide⟩
  have hbase : ¬Slot.Accepts extended .indexed (.indexed (some "-8") "r16") := by
    intro haccepts
    cases haccepts with
    | indexed _ hbase =>
        obtain ⟨index, hindex⟩ := (exists_parseRegister?_iff (by decide)).2 hbase
        have hnone : parseRegister? extended.registerMark extended.layout.rs "r16" = none := by
          decide
        rw [hnone] at hindex
        cases hindex
  have hexact := ((encode_exact hvalid "ld" [.plain "r3", .indexed (some "-8") "r16"] 0).2 _ hload
    rfl).2 rfl
  exact ⟨hvalid, (hexact.2 _).2 ⟨[.register .rd], .indexed, [], [.plain "r3"], _, [], rfl, rfl,
    .cons hfront .nil, hbase, .indexed (.offset "-8" "r16")⟩⟩

end InstructionSet

end Asm32
