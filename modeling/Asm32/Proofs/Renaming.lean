import Asm32.Proofs.Readings

/-!
# Labels under other names

A `Renaming` gives every name another one, and no two names the same.  A program
whose labels are renamed, where they are defined and where a branch goes to
them, assembles as before: to the same image, or to the same failure with the
name of the label renamed in it.  Names of labels may be spelled like mnemonics,
registers or numbers, so only the operands of branches are renamed.

* `map_word_encode_rename` is about one statement: its word and its fault do not
  depend on the name it branches to.
* `address?_rename` is about one label: it keeps its address.
* `lineFault?_rename` is the step of the scan and `scanFault?_rename` its run.
* `assemble_rename` puts them together.
-/

namespace Asm32

/-- Another name for each name, and different names for different ones. -/
structure Renaming where
  rename : String → String
  isIdentifier_rename : ∀ {name}, isIdentifier name = true → isIdentifier (rename name) = true
  injective : ∀ {a b}, isIdentifier a = true → isIdentifier b = true → rename a = rename b → a = b

/-- A plain operand that is a name is renamed. -/
def RawOperand.rename (ρ : Renaming) : RawOperand → RawOperand
  | .plain word => if isIdentifier word then .plain (ρ.rename word) else .plain word
  | .indexed offset base => .indexed offset base

/-- The operands of a branch are renamed, and those of other statements are not. -/
def Statement.rename (isa : InstructionSet) (ρ : Renaming) (s : Statement) : Statement :=
  if (isa.lookup? s.mnemonic).any fun i => i.format = .j then
    { s with operands := s.operands.map (RawOperand.rename ρ) }
  else
    s

/-- The label of a line and the label that it branches to are renamed. -/
def Line.rename (isa : InstructionSet) (ρ : Renaming) (line : Line) : Line :=
  ⟨line.label.map ρ.rename, line.statement.map (Statement.rename isa ρ)⟩

/-- A failure about a label names it by its new name. -/
def AssemblyError.rename (ρ : Renaming) : AssemblyError → AssemblyError
  | .duplicateLabel line name => .duplicateLabel line (ρ.rename name)
  | .undefinedLabel name => .undefinedLabel (ρ.rename name)
  | e => e

theorem Renaming.rename_eq_iff (ρ : Renaming) {a b : String} (ha : isIdentifier a = true)
    (hb : isIdentifier b = true) : ρ.rename a = ρ.rename b ↔ a = b :=
  ⟨ρ.injective ha hb, congrArg ρ.rename⟩

/-! ## Statements -/

namespace Statement

variable {isa : InstructionSet} {ρ : Renaming}

/-- A statement is left alone, or it is a branch. -/
theorem rename_cases (isa : InstructionSet) (ρ : Renaming) (s : Statement) :
    s.rename isa ρ = s ∧ (∀ i, isa.lookup? s.mnemonic = some i → i.format ≠ .j) ∨
      ∃ i, isa.lookup? s.mnemonic = some i ∧ i.format = .j ∧
        s.rename isa ρ = ⟨s.mnemonic, s.operands.map (RawOperand.rename ρ)⟩ := by
  unfold rename
  cases hlookup : isa.lookup? s.mnemonic with
  | none => simp
  | some i => by_cases hformat : i.format = .j <;> simp [hformat]

/-- A label leaves the same word under any name, and what is no label is refused
as it stands. -/
theorem map_pack_readAll_rename (ρ : Renaming) (i : Instruction) (raw : RawOperand) :
    (Slot.readAll isa [.label] [raw.rename ρ]).map (i.pack isa.layout) =
      (Slot.readAll isa [.label] [raw]).map (i.pack isa.layout) := by
  cases raw with
  | indexed offset base => rfl
  | plain word =>
      cases hname : isIdentifier word with
      | false => simp [RawOperand.rename, hname]
      | true =>
          simp [RawOperand.rename, Slot.readAll, Slot.read, Slot.read?, hname,
            ρ.isIdentifier_rename hname, Except.map, Instruction.pack, Operand.bits]

/-- The word of a statement, or its fault, does not depend on the names of
labels. -/
theorem map_word_encode_rename (isa : InstructionSet) (ρ : Renaming) (s : Statement)
    (address : Nat) :
    (isa.encode (s.rename isa ρ).mnemonic (s.rename isa ρ).operands address).map Encoded.word =
      (isa.encode s.mnemonic s.operands address).map Encoded.word := by
  rcases rename_cases isa ρ s with ⟨hsame, _⟩ | ⟨i, hlookup, hformat, hrename⟩
  · rw [hsame]
  · rw [hrename]
    by_cases harity : s.operands.length = i.format.arity
    · have hone : s.operands.length = 1 := by
        rw [harity, hformat]
        rfl
      obtain ⟨raw, hraw⟩ := List.length_eq_one_iff.1 hone
      have hslots : i.format.slots = [.label] := by
        rw [hformat]
        rfl
      rw [InstructionSet.map_word_encode_eq hlookup (by rwa [List.length_map]),
        InstructionSet.map_word_encode_eq hlookup harity, hslots, hraw]
      exact map_pack_readAll_rename ρ i raw
    · simp [InstructionSet.encode, hlookup, harity]

/-- A branch that can be encoded goes to the renamed label. -/
theorem branchLabel?_rename (ρ : Renaming) {s : Statement} {address : Nat} {encoded : Encoded}
    (hencode : isa.encode s.mnemonic s.operands address = .ok encoded) :
    (s.rename isa ρ).branchLabel? isa = (s.branchLabel? isa).map ρ.rename ∧
      ∀ name, s.branchLabel? isa = some name → isIdentifier name = true := by
  rcases InstructionSet.encode_cases hencode with
    ⟨i, name, hlookup, hformat, hoperands, hname, hlabel, _⟩ |
    ⟨i, _, hlookup, hformat, _, hlabel, _⟩
  · have hrename : s.rename isa ρ = ⟨s.mnemonic, [.plain (ρ.rename name)]⟩ := by
      simp [rename, hlookup, hformat, hoperands, RawOperand.rename, hname]
    rw [hlabel, hrename]
    refine ⟨by simp [branchLabel?, hlookup, hformat], fun other hother => ?_⟩
    rwa [← Option.some.inj hother]
  · have hsame : s.rename isa ρ = s := by simp [rename, hlookup, hformat]
    rw [hsame, hlabel]
    exact ⟨rfl, by simp⟩

end Statement

/-! ## Programs -/

namespace Code

/-- A program with all its labels renamed. -/
def rename (isa : InstructionSet) (ρ : Renaming) (p : Code) : Code :=
  p.map (Line.rename isa ρ)

variable {isa : InstructionSet} {p : Code}

theorem statements_rename (isa : InstructionSet) (ρ : Renaming) (p : Code) :
    (p.rename isa ρ).statements = p.statements.map (Statement.rename isa ρ) := by
  rw [statements, rename, List.filterMap_map, statements, List.map_filterMap]
  rfl

/-- A line defines the renamed label if it defined the label. -/
theorem label_rename_eq_iff (ρ : Renaming) {line : Line} {name : String}
    (hline : ∀ label, line.label = some label → isIdentifier label = true)
    (hname : isIdentifier name = true) :
    (line.rename isa ρ).label = some (ρ.rename name) ↔ line.label = some name := by
  cases hlabel : line.label with
  | none => simp [Line.rename, hlabel]
  | some label => simp [Line.rename, hlabel, ρ.rename_eq_iff (hline label hlabel) hname]

/-- A label keeps its address under its new name. -/
theorem address?_rename (ρ : Renaming) (hlabels : ∀ label ∈ p.labels, isIdentifier label = true)
    {name : String} (hname : isIdentifier name = true) :
    (p.rename isa ρ).address? (ρ.rename name) = p.address? name := by
  induction p using List.reverseRecOn with
  | nil => rfl
  | append_singleton p line ih =>
      rw [labels_concat, List.forall_mem_append] at hlabels
      have hline : ∀ label, line.label = some label → isIdentifier label = true := by
        intro label hlabel
        exact hlabels.2 label (by simp [hlabel])
      have hsplit : rename isa ρ (p ++ [line]) = rename isa ρ p ++ [line.rename isa ρ] := by
        simp [rename]
      rw [hsplit, address?_concat, address?_concat, ih hlabels.1, statements_rename,
        List.length_map]
      simp only [label_rename_eq_iff ρ hline hname]

theorem mem_labels_rename_iff (ρ : Renaming)
    (hlabels : ∀ label ∈ p.labels, isIdentifier label = true) {name : String}
    (hname : isIdentifier name = true) :
    ρ.rename name ∈ (p.rename isa ρ).labels ↔ name ∈ p.labels := by
  rw [← not_iff_not, ← address?_eq_none_iff, ← address?_eq_none_iff,
    address?_rename ρ hlabels hname]

/-- The first label that is missing goes missing under its new name. -/
theorem undefined?_rename (ρ : Renaming) (hlabels : ∀ label ∈ p.labels, isIdentifier label = true)
    (hencodes : ∀ k s, p.statements[k]? = some s →
      ∃ encoded, isa.encode s.mnemonic s.operands k = .ok encoded) :
    (p.rename isa ρ).undefined? isa = (p.undefined? isa).map ρ.rename := by
  unfold undefined?
  rw [statements_rename, List.findSome?_map, List.map_findSome?, ← List.head?_filterMap,
    ← List.head?_filterMap]
  congr 1
  apply List.filterMap_congr
  intro s hs
  obtain ⟨k, hk⟩ := List.mem_iff_getElem?.1 hs
  obtain ⟨encoded, hencode⟩ := hencodes k s hk
  obtain ⟨hbranch, hname⟩ := Statement.branchLabel?_rename ρ hencode
  rw [Function.comp_apply, hbranch]
  cases hlabel : s.branchLabel? isa with
  | none => simp [hlabel]
  | some name =>
      have haddress : (p.rename isa ρ).address? (ρ.rename name) = p.address? name :=
        address?_rename ρ hlabels (hname name hlabel)
      simp [hlabel, Option.filter_some, haddress]

/-- A word of a program does not depend on the names of its labels. -/
theorem patchedWord_rename (ρ : Renaming)
    (hlabels : ∀ label ∈ p.labels, isIdentifier label = true) {k : Nat} {s : Statement}
    {encoded : Encoded} (hencode : isa.encode s.mnemonic s.operands k = .ok encoded) :
    (p.rename isa ρ).patchedWord isa k (s.rename isa ρ) = p.patchedWord isa k s := by
  obtain ⟨hbranch, hname⟩ := Statement.branchLabel?_rename ρ hencode
  have hword := encodedWord_congr (Statement.map_word_encode_rename isa ρ s k)
  unfold patchedWord
  rw [hbranch, hword]
  cases hlabel : s.branchLabel? isa with
  | none => rfl
  | some name => simp only [Option.map_some, address?_rename ρ hlabels (hname name hlabel)]

theorem mapIdx_patchedWord_rename (ρ : Renaming)
    (hlabels : ∀ label ∈ p.labels, isIdentifier label = true)
    (hencodes : ∀ k s, p.statements[k]? = some s →
      ∃ encoded, isa.encode s.mnemonic s.operands k = .ok encoded) :
    (p.rename isa ρ).statements.mapIdx ((p.rename isa ρ).patchedWord isa) =
      p.statements.mapIdx (p.patchedWord isa) := by
  apply List.ext_getElem?
  intro k
  rw [statements_rename, List.getElem?_mapIdx, List.getElem?_map, List.getElem?_mapIdx]
  cases hs : p.statements[k]? with
  | none => rfl
  | some s =>
      obtain ⟨encoded, hencode⟩ := hencodes k s hs
      simp only [Option.map_some, patchedWord_rename ρ hlabels hencode]

end Code

/-! ## The scan -/

variable {isa : InstructionSet}

theorem Code.ofTexts_rename {ρ : Renaming} {texts others : List (List Char)}
    (h : others.map (Line.parse? isa) =
      (texts.map (Line.parse? isa)).map (Option.map (Line.rename isa ρ))) :
    ofTexts isa others = (ofTexts isa texts).rename isa ρ := by
  rw [ofTexts_eq, h, ofTexts_eq, rename, List.filterMap_map, List.map_filterMap]
  rfl

/-- A statement that cannot be encoded has the same fault under other names. -/
theorem encodeFault?_rename (ρ : Renaming) (number address : Nat) (s : Statement) :
    encodeFault? isa number address (s.rename isa ρ) =
      (encodeFault? isa number address s).map (AssemblyError.rename ρ) := by
  rw [encodeFault?_congr (Statement.map_word_encode_rename isa ρ s address) number]
  unfold encodeFault?
  cases isa.encode s.mnemonic s.operands address <;> rfl

/-- One line of the scan: a label is defined twice under its new name if it was
under its old one, and all other faults stay. -/
theorem lineFault?_rename (ρ : Renaming) {above : Code}
    (habove : ∀ label ∈ above.labels, isIdentifier label = true) {text other : List Char}
    (hother : Line.parse? isa other = (Line.parse? isa text).map (Line.rename isa ρ))
    (number : Nat) :
    lineFault? isa (above.rename isa ρ) number other =
      (lineFault? isa above number text).map (AssemblyError.rename ρ) := by
  unfold lineFault?
  rw [hother]
  cases hparse : Line.parse? isa text with
  | none => rfl
  | some line =>
      have hduplicate : ((line.rename isa ρ).label.filter fun name =>
            (above.rename isa ρ).any fun other => other.label == some name) =
          (line.label.filter fun name =>
            above.any fun other => other.label == some name).map ρ.rename := by
        cases hlabel : line.label with
        | none => simp [Line.rename, hlabel]
        | some name =>
            have hname := (Line.names_of_parse? hparse).1 name hlabel
            have hmem : ρ.rename name ∈ (above.rename isa ρ).labels ↔ name ∈ above.labels :=
              Code.mem_labels_rename_iff ρ habove hname
            rw [Code.mem_labels_iff, Code.mem_labels_iff, ← Bool.eq_iff_iff] at hmem
            simp only [Line.rename, hlabel, Option.map_some, Option.filter_some, hmem]
            split <;> rfl
      have hencode : (line.rename isa ρ).statement.bind
            (encodeFault? isa number (above.rename isa ρ).statements.length) =
          (line.statement.bind (encodeFault? isa number above.statements.length)).map
            (AssemblyError.rename ρ) := by
        cases hstatement : line.statement with
        | none => simp [Line.rename, hstatement]
        | some s =>
            simp only [Line.rename, hstatement, Option.map_some, Option.bind_some,
              Code.statements_rename, List.length_map, encodeFault?_rename]
      simp only [Option.map_some, hduplicate, hencode]
      cases line.label.filter fun name => above.any fun other => other.label == some name <;> rfl

/-- The whole scan: the first fault is the same, with its label renamed. -/
theorem scanFault?_rename (ρ : Renaming) {texts others : List (List Char)}
    (h : others.map (Line.parse? isa) =
      (texts.map (Line.parse? isa)).map (Option.map (Line.rename isa ρ))) :
    scanFault? isa others = (scanFault? isa texts).map (AssemblyError.rename ρ) := by
  induction texts using List.reverseRecOn generalizing others with
  | nil =>
      rw [List.map_nil, List.map_nil, List.map_eq_nil_iff] at h
      rw [h]
      rfl
  | append_singleton texts text ih =>
      rw [List.map_append, List.map_append, List.map_eq_append_iff] at h
      obtain ⟨above, last, rfl, habove, hlast⟩ := h
      obtain ⟨other, rfl, hother⟩ := List.map_eq_singleton_iff.1 hlast
      have hcode : Code.ofTexts isa above = (Code.ofTexts isa texts).rename isa ρ :=
        Code.ofTexts_rename habove
      have hlength : above.length = texts.length := by
        simpa using congrArg List.length habove
      rw [scanFault?_concat, scanFault?_concat, ih habove, hcode, hlength,
        lineFault?_rename ρ (fun _ => Code.isIdentifier_of_mem_labels) hother, Option.map_or]

/-! ## The result -/

/-- Words that do not fit are no matter of labels. -/
theorem mapError_ofWords (ρ : Renaming) (words : List Word) (capacity : UInt64) :
    (Image.ofWords words capacity).mapError (AssemblyError.rename ρ) =
      Image.ofWords words capacity := by
  unfold Image.ofWords
  split <;> rfl

/-- A source that reads, line by line, as another with its labels renamed
assembles like it: to the same image, or to the same failure with its label
renamed. -/
theorem assemble_rename (ρ : Renaming) {source other : String}
    (hlines : lineReadings isa other.toList =
      (lineReadings isa source.toList).map (Option.map (Line.rename isa ρ))) :
    assemble isa other = (assemble isa source).mapError (AssemblyError.rename ρ) := by
  have hcode : Code.ofSource isa other = (Code.ofSource isa source).rename isa ρ :=
    Code.ofTexts_rename hlines
  have hlabels : ∀ label ∈ (Code.ofSource isa source).labels, isIdentifier label = true :=
    fun _ => Code.isIdentifier_of_mem_labels
  rw [assemble_eq, assemble_eq, scanFault?_rename ρ hlines, hcode]
  cases hfault : scanFault? isa (Text.lines source.toList) with
  | some e => rfl
  | none =>
      -- Without a fault every statement has a word, and its branches go to names.
      have hencodes := fun k s => encode_of_no_fault (k := k) (s := s) hfault
      rw [Code.undefined?_rename ρ hlabels hencodes,
        Code.mapIdx_patchedWord_rename ρ hlabels hencodes]
      cases (Code.ofSource isa source).undefined? isa with
      | some name => rfl
      | none => exact (mapError_ofWords ρ _ _).symm

/-- The renaming that exchanges two names. -/
def Renaming.swap (a b : String) (ha : isIdentifier a = true) (hb : isIdentifier b = true) :
    Renaming where
  rename name := if name = a then b else if name = b then a else name
  isIdentifier_rename := by
    intro name hname
    split
    · exact hb
    · split
      · exact ha
      · exact hname
  injective := by grind

/-- Labels spelled like a mnemonic and like a register change places, in a
program that assembles and in one that does not. -/
theorem assemble_rename_swap :
    assemble .extended "r1: b r1\nb: b r1" = assemble .extended "b: b b\nr1: b b" ∧
      assemble .extended "b: b b\nr1: b b" =
        .ok ⟨[0x2000ffff#32, 0x2000fffe#32], 256, by decide⟩ ∧
      assemble .extended "r1:\nr1: b b" = .error (.duplicateLabel 2 "r1") := by
  have hok : assemble .extended "b: b b\nr1: b b" =
      .ok ⟨[0x2000ffff#32, 0x2000fffe#32], 256, by decide⟩ := rfl
  have herror : assemble .extended "b:\nb: b r1" = .error (.duplicateLabel 2 "b") := rfl
  let ρ := Renaming.swap "b" "r1" (by decide) (by decide)
  have hplaces : lineReadings .extended "r1: b r1\nb: b r1".toList =
      (lineReadings .extended "b: b b\nr1: b b".toList).map
        (Option.map (Line.rename .extended ρ)) := rfl
  have htwice : lineReadings .extended "r1:\nr1: b b".toList =
      (lineReadings .extended "b:\nb: b r1".toList).map
        (Option.map (Line.rename .extended ρ)) := rfl
  refine ⟨?_, hok, ?_⟩
  · rw [assemble_rename ρ hplaces, hok]
    rfl
  · rw [assemble_rename ρ htwice, herror]
    rfl

end Asm32
