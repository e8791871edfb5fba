import Asm32.Proofs.InstructionRoundTrip
import Asm32.Proofs.Linking

/-!
# Patching against resolving first

`resolveFirst` assembles without patching: it finds the addresses of all labels,
and then writes each word once, with its displacement.  It has no label table
and no list of references.  For a validated instruction set the two assemblers
agree on every source, failures included.

The words differ in one point only.  `assemble` clears the displacement of a
branch and fills it, while `resolveFirst` puts opcode and displacement together;
in a validated set the two fields share no bit, so this is the same
(`patchedWord_eq_resolvedWord`).
-/

namespace Asm32

/-- The word of the statement at address `k` with all labels known: opcode and
displacement for a branch, and what encoding gives for any other statement. -/
def Code.resolvedWord (isa : InstructionSet) (p : Code) (k : Nat) (s : Statement) : Word :=
  match isa.lookup? s.mnemonic, s.branchLabel? isa with
  | some i, some name =>
      isa.layout.opcode.place i.opcode |||
        isa.layout.disp.place (BitVec.ofInt 32 ((p.address? name).getD 0 - (k + 1)))
  | _, _ => encodedWord isa k s

/-- The image of a program with all labels known.  A branch to a label that no
line defines comes before a program that is too large. -/
def Code.resolve (isa : InstructionSet) (p : Code) : Except AssemblyError Image :=
  match p.undefined? isa with
  | some name => .error (.undefinedLabel name)
  | none =>
      if hfits : p.statements.length ≤ isa.memoryWords.toNat then
        .ok
          { words := p.statements.mapIdx (p.resolvedWord isa)
            capacity := isa.memoryWords
            fits := by rwa [List.length_mapIdx] }
      else
        .error (.programTooLarge p.statements.length isa.memoryWords.toNat)

/-- Assemble a source by resolving labels first.  The first faulty line decides
the failure. -/
def resolveFirst (isa : InstructionSet) (source : String) : Except AssemblyError Image :=
  match scanFault? isa (Text.lines source.toList) with
  | some e => .error e
  | none => (Code.ofSource isa source).resolve isa

/-- A statement that can be encoded gets the same word by patching and by
resolving first. -/
theorem InstructionSet.Consistent.patchedWord_eq_resolvedWord {isa : InstructionSet}
    (h : isa.Consistent) (p : Code) {k : Nat} {s : Statement} {encoded : Encoded}
    (hencode : isa.encode s.mnemonic s.operands k = .ok encoded) :
    p.patchedWord isa k s = p.resolvedWord isa k s := by
  unfold Code.patchedWord Code.resolvedWord
  rcases encode_cases hencode with ⟨i, name, hlookup, hformat, _, _, hlabel, rfl⟩ |
    ⟨i, operands, hlookup, _, _, hlabel, rfl⟩
  · simp only [hlabel, hlookup, encodedWord, hencode]
    exact h.replace_branch (mem_of_lookup? hlookup).1 hformat _
  · simp only [hlabel, hlookup]

/-- Without a fault, patching and resolving first give the same words. -/
theorem InstructionSet.Consistent.mapIdx_patchedWord {isa : InstructionSet}
    (h : isa.Consistent) {source : String}
    (hfault : scanFault? isa (Text.lines source.toList) = none) (p : Code) :
    (Code.ofSource isa source).statements.mapIdx (p.patchedWord isa) =
      (Code.ofSource isa source).statements.mapIdx (p.resolvedWord isa) := by
  apply List.ext_getElem?
  intro k
  rw [List.getElem?_mapIdx, List.getElem?_mapIdx]
  cases hs : (Code.ofSource isa source).statements[k]? with
  | none => rfl
  | some s =>
      obtain ⟨encoded, hencode⟩ := encode_of_no_fault hfault hs
      rw [Option.map_some, Option.map_some, h.patchedWord_eq_resolvedWord p hencode]

/-- The word of each statement of an assembled program.  It is complete, or it
is a branch, whose label is defined in the program or right behind it. -/
theorem InstructionSet.Consistent.word_cases {isa : InstructionSet} (h : isa.Consistent)
    {source : String} {image : Image} (hassemble : assemble isa source = .ok image) {k : Nat}
    {s : Statement} (hs : (Code.ofSource isa source).statements[k]? = some s) :
    (∃ i name t, s.branchLabel? isa = some name ∧ i ∈ isa.instructions ∧ i.format = .j ∧
        (Code.ofSource isa source).address? name = some t ∧ t ≤ image.words.length ∧
        image.words[k]? = some (isa.layout.opcode.place i.opcode |||
          isa.layout.disp.place (BitVec.ofInt 32 (t - (k + 1))))) ∨
      ∃ i operands, s.branchLabel? isa = none ∧ i ∈ isa.instructions ∧ i.format ≠ .j ∧
        Slot.ReadsAll isa i.format.slots s.operands operands ∧
        image.words[k]? = some (i.pack isa.layout operands) := by
  obtain ⟨hfault, hdefined, hwords, _⟩ := assemble_eq_ok_iff.1 hassemble
  obtain ⟨encoded, hencode⟩ := encode_of_no_fault hfault hs
  rw [h.mapIdx_patchedWord hfault] at hwords
  have hlength : image.words.length = (Code.ofSource isa source).statements.length := by
    rw [hwords, List.length_mapIdx]
  have hword : image.words[k]? = some ((Code.ofSource isa source).resolvedWord isa k s) := by
    rw [hwords, List.getElem?_mapIdx, hs, Option.map_some]
  rw [hlength, hword]
  rcases encode_cases hencode with ⟨i, name, hlookup, hformat, _, _, hlabel, rfl⟩ |
    ⟨i, operands, hlookup, hformat, hreads, hlabel, rfl⟩
  · left
    obtain ⟨t, ht, hle⟩ := address_of_defined hdefined (List.mem_of_getElem? hs) hlabel
    refine ⟨i, name, t, hlabel, (mem_of_lookup? hlookup).1, hformat, ht, hle, ?_⟩
    simp only [Code.resolvedWord, hlookup, hlabel, ht, Option.getD_some]
  · right
    refine ⟨i, operands, hlabel, (mem_of_lookup? hlookup).1, hformat, hreads, ?_⟩
    simp only [Code.resolvedWord, hlookup, hlabel, encodedWord, hencode]

/-- Assembling with patches is assembling with all labels known. -/
theorem assemble_eq_resolveFirst {isa : InstructionSet} (hvalid : isa.validate = .ok ())
    (source : String) : assemble isa source = resolveFirst isa source := by
  have h := InstructionSet.validate_eq_ok_iff.1 hvalid
  rw [assemble_eq, resolveFirst]
  cases hfault : scanFault? isa (Text.lines source.toList) with
  | some e => rfl
  | none =>
      have hwords := h.mapIdx_patchedWord hfault (Code.ofSource isa source)
      cases hdefined : (Code.ofSource isa source).undefined? isa with
      | some name => simp only [Code.resolve, hdefined]
      | none => simp only [Code.resolve, hdefined, hwords, Image.ofWords, List.length_mapIdx]

/-- A branch to a label below it, which is defined behind the last word, and one
back to a label above. -/
theorem assemble_eq_resolveFirst_loop :
    InstructionSet.extended.validate = .ok () ∧
      assemble .extended "loop: b done\n bne loop\ndone:" =
        resolveFirst .extended "loop: b done\n bne loop\ndone:" :=
  ⟨InstructionSet.validate_ofVariant .extended,
    assemble_eq_resolveFirst (InstructionSet.validate_ofVariant .extended) _⟩

end Asm32
