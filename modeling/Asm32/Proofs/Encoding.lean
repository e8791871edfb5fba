import Asm32.Proofs.Packing

/-!
# What a successful encoding is made of

`InstructionSet.encode` looks a mnemonic up, reads the operands and packs them.
This file inverts it once, for all later proofs.

* `Literal.value?` is the integer that a number stands for; the loop that reads it
  wraps at every digit and still ends at its low 64 bits (`parseImmediate?_eq`).
* `Slot.ReadsAll` is the reading of operands slot by slot, as a relation;
  `readAll_eq_ok_iff` ties it to `Slot.readAll`.
* `encode_cases` splits a successful encoding into its two kinds: a branch, which
  is a bare opcode with a reference to its label, and everything else, which is
  complete and refers to nothing.
* `Statement.branchLabel?` reads off a statement which of the two it is, and to
  which label it branches (`pending_of_encode`).
-/

namespace Asm32

/-! ## Registers and numbers -/

/-- The number of a register as it is written behind the register mark. -/
def registerNumber? (mark : Char) (token : String) : Option Nat :=
  match token.toList with
  | [] => none
  | c :: digits => if c = mark then Text.digitsValue? 10 digits else none

/-- A register token is read when the field can hold its number. -/
theorem parseRegister?_eq_some_iff {mark : Char} {field : Field} {token : String} {index : Word} :
    parseRegister? mark field token = some index ↔
      registerNumber? mark token = some index.toNat ∧ index.toNat ≤ field.maxValue.toNat := by
  unfold parseRegister? registerNumber?
  cases token.toList with
  | nil => simp
  | cons c digits =>
      by_cases hc : c = mark
      · simp only [hc, if_true]
        cases Text.digitsValue? 10 digits with
        | none => simp
        | some n =>
            simp only [Option.bind_some, Option.some.injEq]
            by_cases hle : n ≤ field.maxValue.toNat
            · have hlt : n < 2 ^ 32 := Nat.lt_of_le_of_lt hle field.maxValue.isLt
              rw [if_pos hle, Option.some.injEq]
              constructor
              · intro hindex
                subst hindex
                rw [BitVec.toNat_ofNat, Nat.mod_eq_of_lt hlt]
                exact ⟨rfl, hle⟩
              · intro hnumber
                obtain ⟨rfl, _⟩ := hnumber
                rw [BitVec.ofNat_toNat, BitVec.setWidth_eq]
            · rw [if_neg hle]
              simp only [reduceCtorEq, false_iff]
              intro hnumber
              obtain ⟨rfl, hle'⟩ := hnumber
              exact hle hle'
      · simp [hc]

namespace Literal

/-- The value of an unsigned number, however long it is. -/
def magnitude? (text : List Char) : Option Nat :=
  Text.digitsValue? (splitBase text).2 (splitBase text).1

/-- The value of a number, however long it is. -/
def value? (text : List Char) : Option Int :=
  (magnitude? (splitSign text).2).map fun (n : Nat) =>
    if (splitSign text).1 then -(n : Int) else (n : Int)

/-- Digits that are added up in 64 bits give the low 64 bits of their value: each
step loses a multiple of 2^64, and so does the whole. -/
theorem wrappedFrom?_ofNat (base value : Nat) (digits : List Char) :
    wrappedFrom? base (UInt64.ofNat value) digits =
      (Text.digitsFrom? base value digits).map UInt64.ofNat := by
  induction digits generalizing value with
  | nil => rfl
  | cons c rest ih =>
      rw [wrappedFrom?, Text.digitsFrom?]
      cases Text.digitOf? base c with
      | none => rfl
      | some digit =>
          have hstep : UInt64.ofNat value * UInt64.ofNat base + UInt64.ofNat digit =
              UInt64.ofNat (value * base + digit) := by
            rw [UInt64.ofNat_add, UInt64.ofNat_mul]
          simp only [hstep, ih]

theorem wrapped?_eq (text : List Char) : wrapped? text = (magnitude? text).map UInt64.ofNat := by
  unfold wrapped? magnitude?
  rcases splitBase text with ⟨_ | ⟨c, rest⟩, base⟩
  · rfl
  · exact wrappedFrom?_ofNat base 0 (c :: rest)

end Literal

theorem toInt64_ofNat (n : Nat) : (UInt64.ofNat n).toInt64 = Int64.ofInt n := by
  rw [← Int64.toBitVec_inj]
  simp

/-- A number is read as the low 64 bits of its value. -/
theorem parseImmediate?_eq (token : String) :
    parseImmediate? token = (Literal.value? token.toList).map Int64.ofInt := by
  unfold parseImmediate? Literal.value?
  rw [Literal.wrapped?_eq, Option.map_map, Option.map_map]
  congr 1
  funext n
  cases (Literal.splitSign token.toList).1 with
  | false => exact toInt64_ofNat n
  | true => exact (congrArg (-·) (toInt64_ofNat n)).trans (Int64.ofInt_neg _).symm

theorem parseImmediate?_eq_some_iff {token : String} {value : Int64} :
    parseImmediate? token = some value ↔
      ∃ n, Literal.value? token.toList = some n ∧ value = Int64.ofInt n := by
  simp [parseImmediate?_eq, eq_comm]

/-! ## Operands -/

namespace Slot

/-- The four ways in which a source operand fits its slot. -/
inductive Reads (isa : InstructionSet) : Slot → RawOperand → Operand → Prop where
  | register {field word index}
      (hregister : parseRegister? isa.registerMark (isa.layout.field field) word = some index) :
      Reads isa (.register field) (.plain word) (.register field index)
  | immediate {word value} (hvalue : parseImmediate? word = some value) :
      Reads isa .immediate (.plain word) (.immediate value)
  | label {word} (hname : isIdentifier word = true) :
      Reads isa .label (.plain word) (.label word)
  | indexed {offset base value index} (hoffset : parseOffset? offset = some value)
      (hbase : parseRegister? isa.registerMark isa.layout.rs base = some index) :
      Reads isa .indexed (.indexed offset base) (.indexed value index)

/-- Operands read slot by slot. -/
inductive ReadsAll (isa : InstructionSet) :
    List Slot → List RawOperand → List Operand → Prop where
  | nil : ReadsAll isa [] [] []
  | cons {slot raw operand slots raws operands} (hhead : Reads isa slot raw operand)
      (htail : ReadsAll isa slots raws operands) :
      ReadsAll isa (slot :: slots) (raw :: raws) (operand :: operands)

variable {isa : InstructionSet}

theorem read?_eq_some_iff {slot : Slot} {raw : RawOperand} {operand : Operand} :
    slot.read? isa raw = some operand ↔ Reads isa slot raw operand := by
  constructor
  · intro hread
    cases slot <;> cases raw <;> simp only [read?, reduceCtorEq] at hread
    case register.plain field word =>
      obtain ⟨index, hregister, rfl⟩ := Option.map_eq_some_iff.1 hread
      exact .register hregister
    case immediate.plain word =>
      obtain ⟨value, hvalue, rfl⟩ := Option.map_eq_some_iff.1 hread
      exact .immediate hvalue
    case label.plain word =>
      split at hread
      next hname =>
        cases hread
        exact .label hname
      next => cases hread
    case indexed.indexed offset base =>
      obtain ⟨value, hoffset, hrest⟩ := Option.bind_eq_some_iff.1 hread
      obtain ⟨index, hbase, rfl⟩ := Option.map_eq_some_iff.1 hrest
      exact .indexed hoffset hbase
  · intro hreads
    cases hreads with
    | register hregister => rw [read?, hregister, Option.map_some]
    | immediate hvalue => rw [read?, hvalue, Option.map_some]
    | label hname => rw [read?, if_pos hname]
    | indexed hoffset hbase => rw [read?, hoffset, Option.bind_some, hbase, Option.map_some]

theorem read_eq_ok_iff {slot : Slot} {raw : RawOperand} {operand : Operand} :
    slot.read isa raw = .ok operand ↔ Reads isa slot raw operand := by
  rw [← read?_eq_some_iff, read]
  cases slot.read? isa raw <;> simp

variable {slots : List Slot} {raws : List RawOperand} {operands : List Operand}

theorem ReadsAll.length_eq (h : ReadsAll isa slots raws operands) : raws.length = slots.length := by
  induction h with
  | nil => rfl
  | cons _ _ ih => rw [List.length_cons, List.length_cons, ih]

/-- Reading as many operands as there are slots is reading them one by one. -/
theorem readAll_eq_ok_iff (hlength : raws.length = slots.length) :
    readAll isa slots raws = .ok operands ↔ ReadsAll isa slots raws operands := by
  constructor
  · intro h
    induction slots generalizing raws operands with
    | nil =>
        obtain rfl := List.length_eq_zero_iff.1 hlength
        cases h
        exact .nil
    | cons slot slots ih =>
        cases raws with
        | nil => simp at hlength
        | cons raw raws =>
            simp only [List.length_cons, Nat.add_right_cancel_iff] at hlength
            rw [readAll] at h
            cases hread : slot.read isa raw with
            | error e => simp [hread] at h
            | ok operand =>
                cases hrest : readAll isa slots raws with
                | error e => simp [hread, hrest] at h
                | ok rest =>
                    simp only [hread, hrest, Except.ok.injEq] at h
                    subst h
                    exact .cons (read_eq_ok_iff.1 hread) (ih hlength hrest)
  · intro h
    induction h with
    | nil => rfl
    | cons hhead htail ih => rw [readAll, read_eq_ok_iff.2 hhead, ih htail.length_eq]

/-- Operands fill the fields of their slots. -/
theorem ReadsAll.map_fst_parts (h : ReadsAll isa slots raws operands) :
    (operands.flatMap Operand.parts).map Prod.fst = slots.flatMap Slot.fields := by
  induction h with
  | nil => rfl
  | @cons slot _ operand _ _ _ hhead _ ih =>
      have hfields : operand.parts.map Prod.fst = slot.fields := by cases hhead <;> rfl
      rw [List.flatMap_cons, List.flatMap_cons, List.map_append, hfields, ih]

/-- Only label slots give labels. -/
theorem ReadsAll.findSome?_label? (h : ReadsAll isa slots raws operands)
    (hslots : Slot.label ∉ slots) : operands.findSome? Operand.label? = none := by
  induction h with
  | nil => rfl
  | @cons _ _ operand _ _ _ hhead _ ih =>
      rw [List.mem_cons, not_or] at hslots
      have hnone : operand.label? = none := by
        cases hhead with
        | register | immediate | indexed => rfl
        | label => exact absurd rfl hslots.1
      rw [List.findSome?_cons, hnone]
      exact ih hslots.2

end Slot

/-- The branch format is the one with a label. -/
theorem Format.label_mem_slots_iff {format : Format} : Slot.label ∈ format.slots ↔ format = .j := by
  cases format <;> decide

theorem Format.label_not_mem_slots {format : Format} (h : format ≠ .j) :
    Slot.label ∉ format.slots := by
  intro hmem
  exact h (label_mem_slots_iff.1 hmem)

/-! ## Instructions -/

/-- The label that a statement branches to, if it is a branch. -/
def Statement.branchLabel? (isa : InstructionSet) (s : Statement) : Option String :=
  match isa.lookup? s.mnemonic, s.operands with
  | some i, [.plain name] => if i.format = .j then some name else none
  | _, _ => none

namespace InstructionSet

variable {isa : InstructionSet} {mnemonic : String} {raws : List RawOperand} {address : Nat}

theorem encode_eq_ok_iff {encoded : Encoded} :
    isa.encode mnemonic raws address = .ok encoded ↔
      ∃ i operands, isa.lookup? mnemonic = some i ∧
        Slot.ReadsAll isa i.format.slots raws operands ∧
        encoded = ⟨i.pack isa.layout operands,
          (operands.findSome? Operand.label?).map fun label => ⟨label, address⟩⟩ := by
  unfold encode
  cases hlookup : isa.lookup? mnemonic with
  | none => simp
  | some i =>
      by_cases harity : raws.length = i.format.arity
      · simp only [harity, if_true]
        cases hread : Slot.readAll isa i.format.slots raws with
        | error e =>
            simp only [reduceCtorEq, false_iff]
            intro hencoding
            obtain ⟨i', operands, hi', hreads, _⟩ := hencoding
            cases hi'
            rw [(Slot.readAll_eq_ok_iff harity).2 hreads] at hread
            cases hread
        | ok operands =>
            have hreads := (Slot.readAll_eq_ok_iff harity).1 hread
            simp only [Except.ok.injEq]
            constructor
            · intro hencoded
              subst hencoded
              exact ⟨i, operands, rfl, hreads, rfl⟩
            · intro hencoding
              obtain ⟨i', operands', hi', hreads', rfl⟩ := hencoding
              cases hi'
              rw [(Slot.readAll_eq_ok_iff harity).2 hreads'] at hread
              cases hread
              rfl
      · simp only [harity, if_false, reduceCtorEq, false_iff]
        intro hencoding
        obtain ⟨i', operands, hi', hreads, _⟩ := hencoding
        cases hi'
        exact harity hreads.length_eq

/-- The word of an instruction with the right number of operands, or its fault. -/
theorem map_word_encode_eq {i : Instruction} (hlookup : isa.lookup? mnemonic = some i)
    (harity : raws.length = i.format.arity) :
    (isa.encode mnemonic raws address).map Encoded.word =
      (Slot.readAll isa i.format.slots raws).map (i.pack isa.layout) := by
  unfold encode
  simp only [hlookup, harity, if_true]
  cases Slot.readAll isa i.format.slots raws <;> rfl

/-- The address of an instruction shows in its reference only, not in its word. -/
theorem map_word_encode (isa : InstructionSet) (mnemonic : String) (raws : List RawOperand)
    (address other : Nat) :
    (isa.encode mnemonic raws address).map Encoded.word =
      (isa.encode mnemonic raws other).map Encoded.word := by
  unfold encode
  cases isa.lookup? mnemonic with
  | none => rfl
  | some i =>
      dsimp only
      split
      · cases Slot.readAll isa i.format.slots raws <;> rfl
      · rfl

theorem exists_encode_of_encode
    (h : ∃ encoded, isa.encode mnemonic raws address = .ok encoded) (other : Nat) :
    ∃ encoded, isa.encode mnemonic raws other = .ok encoded := by
  obtain ⟨encoded, hencode⟩ := h
  have hword := isa.map_word_encode mnemonic raws address other
  rw [hencode] at hword
  cases hother : isa.encode mnemonic raws other with
  | ok encoded => exact ⟨encoded, rfl⟩
  | error e =>
      rw [hother] at hword
      cases hword

/-- A successful encoding is a branch, which is a bare opcode that waits for its
label, or a complete word. -/
theorem encode_cases {s : Statement} {encoded : Encoded}
    (hencode : isa.encode s.mnemonic s.operands address = .ok encoded) :
    (∃ i name, isa.lookup? s.mnemonic = some i ∧ i.format = .j ∧
        s.operands = [.plain name] ∧ isIdentifier name = true ∧
        s.branchLabel? isa = some name ∧
        encoded = ⟨isa.layout.opcode.place i.opcode, some ⟨name, address⟩⟩) ∨
      ∃ i operands, isa.lookup? s.mnemonic = some i ∧ i.format ≠ .j ∧
        Slot.ReadsAll isa i.format.slots s.operands operands ∧
        s.branchLabel? isa = none ∧
        encoded = ⟨i.pack isa.layout operands, none⟩ := by
  obtain ⟨mnemonic, raws⟩ := s
  obtain ⟨i, operands, hlookup, hreads, rfl⟩ := encode_eq_ok_iff.1 hencode
  by_cases hformat : i.format = .j
  · left
    rw [hformat] at hreads
    cases hreads with
    | cons hhead htail =>
        cases htail
        cases hhead with
        | label hname =>
            refine ⟨i, _, hlookup, hformat, rfl, hname, ?_, ?_⟩
            · simp [Statement.branchLabel?, hlookup, hformat]
            · simp [Instruction.pack, Operand.bits, Operand.label?]
  · right
    refine ⟨i, operands, hlookup, hformat, hreads, ?_, ?_⟩
    · unfold Statement.branchLabel?
      split
      next i' name hlookup' _ =>
        rw [hlookup, Option.some.injEq] at hlookup'
        rw [← hlookup', if_neg hformat]
      next => rfl
    · rw [hreads.findSome?_label? (Format.label_not_mem_slots hformat), Option.map_none]

/-- A branch waits for the label it names, and nothing else waits. -/
theorem pending_of_encode {s : Statement} {encoded : Encoded}
    (hencode : isa.encode s.mnemonic s.operands address = .ok encoded) :
    encoded.pending = (s.branchLabel? isa).map fun name => ⟨name, address⟩ := by
  rcases encode_cases hencode with ⟨i, name, _, _, _, _, hlabel, rfl⟩ |
    ⟨i, operands, _, _, _, hlabel, rfl⟩
  · rw [hlabel, Option.map_some]
  · rw [hlabel, Option.map_none]

end InstructionSet

end Asm32
