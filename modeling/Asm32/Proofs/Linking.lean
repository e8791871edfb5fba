import Asm32.Proofs.Fixup
import Asm32.Proofs.Code

/-!
# The assembler as a function of the program

The scan and the patch pass together, with the state of the run gone: the result
of `assemble` is read off the program alone.  `assemble_eq` is the equation, for
every instruction set and every source.  Three questions decide the result, in
this order: does a line have a fault, does a branch name a label that no line
defines, and do the words fit the memory.
-/

namespace Asm32

namespace Code

/-- The first label that a branch names and no line defines. -/
def undefined? (isa : InstructionSet) (p : Code) : Option String :=
  p.statements.findSome? fun s =>
    (s.branchLabel? isa).filter fun name => (p.address? name).isNone

/-- The word of the statement at address `k`.  The displacement of a branch is
the distance from the word behind it to its label. -/
def patchedWord (isa : InstructionSet) (p : Code) (k : Nat) (s : Statement) : Word :=
  match s.branchLabel? isa with
  | some name =>
      isa.layout.disp.replace (encodedWord isa k s)
        (BitVec.ofInt 32 ((p.address? name).getD 0 - (k + 1)))
  | none => encodedWord isa k s

/-- Nothing in the program keeps it from being assembled: its labels differ, its
statements can be encoded, and its branches name labels that it defines. -/
structure Links (isa : InstructionSet) (p : Code) : Prop where
  labels : p.labels.Nodup
  encodes : ∀ k s, p.statements[k]? = some s →
    ∃ encoded, isa.encode s.mnemonic s.operands k = .ok encoded
  defined : p.undefined? isa = none

/-! ## The references of a program -/

/-- A reference goes out from the statement that branches to its label. -/
theorem mem_branches_iff {isa : InstructionSet} {p : Code} {r : Reference} :
    r ∈ p.branches isa ↔
      ∃ s, p.statements[r.address]? = some s ∧ s.branchLabel? isa = some r.label := by
  obtain ⟨label, address⟩ := r
  simp only [branches, List.mem_filterMap, Prod.exists, List.mk_mem_zipIdx_iff_getElem?,
    Option.map_eq_some_iff, Reference.mk.injEq]
  constructor
  · rintro ⟨s, k, hs, name, hname, rfl, rfl⟩
    exact ⟨s, hs, hname⟩
  · rintro ⟨s, hs, hname⟩
    exact ⟨s, address, hs, label, hname, rfl, rfl⟩

theorem address_lt_of_mem_branches {isa : InstructionSet} {p : Code} {r : Reference}
    (h : r ∈ p.branches isa) : r.address < p.statements.length := by
  obtain ⟨s, hs, _⟩ := mem_branches_iff.1 h
  exact (List.getElem?_eq_some_iff.1 hs).1

/-- The references come in the order of their addresses. -/
theorem pairwise_branches (isa : InstructionSet) (p : Code) :
    ((p.branches isa).map Reference.address).Pairwise (· < ·) := by
  have hindices : p.statements.zipIdx.Pairwise fun a b => a.2 < b.2 := by
    have hrange : (p.statements.zipIdx.map Prod.snd).Pairwise (· < ·) := by
      rw [List.zipIdx_map_snd]
      exact List.pairwise_lt_range'
    exact List.pairwise_map.1 hrange
  rw [List.pairwise_map, branches, List.pairwise_filterMap]
  refine hindices.imp fun {a b} hlt r hr other hother => ?_
  obtain ⟨_, _, rfl⟩ := Option.map_eq_some_iff.1 hr
  obtain ⟨_, _, rfl⟩ := Option.map_eq_some_iff.1 hother
  exact hlt

/-- Searching the references is searching the branches in statement order. -/
theorem find?_branches (isa : InstructionSet) (p : Code) (test : String → Bool) :
    ((p.branches isa).find? fun r => test r.label).map Reference.label =
      p.statements.findSome? fun s => (s.branchLabel? isa).filter test := by
  unfold branches
  induction p.statements using List.reverseRecOn with
  | nil => simp
  | append_singleton statements s ih =>
      rw [List.zipIdx_append, List.filterMap_append, List.find?_append, List.findSome?_append,
        Option.map_or, ih]
      congr 1
      cases hlabel : s.branchLabel? isa with
      | none => simp [hlabel]
      | some name => cases htest : test name <;> simp [hlabel, htest, Option.filter_some]

theorem undefined?_eq (isa : InstructionSet) (p : Code) :
    p.undefined? isa =
      ((p.branches isa).find? fun r => (p.address? r.label).isNone).map Reference.label :=
  (p.find?_branches isa fun name => (p.address? name).isNone).symm

/-- No label is missing when each branch names one that a line defines. -/
theorem undefined?_eq_none_iff {isa : InstructionSet} {p : Code} :
    p.undefined? isa = none ↔
      ∀ s ∈ p.statements, ∀ name, s.branchLabel? isa = some name → name ∈ p.labels := by
  unfold undefined?
  rw [List.findSome?_eq_none_iff]
  refine forall₂_congr fun s _ => ?_
  rw [Option.filter_eq_none_iff]
  refine forall₂_congr fun name _ => ?_
  rw [Option.isNone_iff_eq_none, address?_eq_none_iff, not_not]

/-- At most one reference goes out from an address: that of its branch. -/
theorem filter_branches (isa : InstructionSet) (p : Code) (k : Nat) :
    (p.branches isa).filter (fun r => r.address == k) =
      ((p.statements[k]?.bind fun s => s.branchLabel? isa).map fun name => ⟨name, k⟩).toList := by
  unfold branches
  induction p.statements using List.reverseRecOn with
  | nil => simp
  | append_singleton statements s ih =>
      rw [List.zipIdx_append, List.filterMap_append, List.filter_append, ih]
      rcases Nat.lt_trichotomy k statements.length with hk | rfl | hk
      · rw [List.getElem?_append_left hk]
        cases s.branchLabel? isa <;> simp [Nat.ne_of_gt hk]
      · cases hlabel : s.branchLabel? isa <;> simp [hlabel]
      · rw [List.getElem?_eq_none (Nat.le_of_lt hk), List.getElem?_eq_none (by simp; omega)]
        cases s.branchLabel? isa <;> simp [Nat.ne_of_lt hk]

end Code

/-! ## Patching the words of a scan -/

theorem Scan.Describes.address_lt {isa : InstructionSet} {p : Code} {s : Scan}
    (h : s.Describes isa p) : ∀ r ∈ s.pending, r.address < s.words.length := by
  rw [h.pending, h.length_words]
  exact fun r => Code.address_lt_of_mem_branches

/-- The outcome of patching is decided by the labels of the branches. -/
theorem Scan.Describes.outcome_fixup {isa : InstructionSet} {p : Code} {s : Scan}
    (h : s.Describes isa p) :
    (fixup isa.layout.disp s.labels s.words s.pending).outcome =
      match p.undefined? isa with
      | some name => .error (.undefinedLabel name)
      | none => .ok () := by
  rw [Asm32.outcome_fixup h.address_lt, h.pending]
  simp only [h.labels]
  rw [Code.undefined?_eq]
  cases (p.branches isa).find? fun r => (p.address? r.label).isNone <;> rfl

/-- Patching turns the words of the scan into the words of the program. -/
theorem Scan.Describes.words_fixup {isa : InstructionSet} {p : Code} {s : Scan}
    (h : s.Describes isa p) (hdefined : p.undefined? isa = none) :
    (fixup isa.layout.disp s.labels s.words s.pending).words =
      p.statements.mapIdx (p.patchedWord isa) := by
  have hresolved : ∀ r ∈ s.pending, s.labels.get? r.label ≠ none := by
    intro r hr
    rw [Code.undefined?_eq, Option.map_eq_none_iff, List.find?_eq_none, ← h.pending] at hdefined
    rw [h.labels]
    simpa using hdefined r hr
  apply List.ext_getElem?
  intro k
  rw [getElem?_words_fixup h.address_lt hresolved, h.words, h.pending, p.filter_branches isa,
    List.getElem?_mapIdx, List.getElem?_mapIdx]
  cases hstatement : p.statements[k]? with
  | none => rfl
  | some statement =>
      simp only [Option.map_some, Option.bind_some, Option.some.injEq, Code.patchedWord]
      cases hlabel : statement.branchLabel? isa with
      | none => rfl
      | some name =>
          have hmem : (⟨name, k⟩ : Reference) ∈ s.pending := by
            rw [h.pending]
            exact Code.mem_branches_iff.2 ⟨statement, hstatement, hlabel⟩
          have hsome := hresolved _ hmem
          rw [h.labels] at hsome
          cases htarget : p.address? name with
          | none => exact absurd htarget hsome
          | some target => simp [Reference.patch, h.labels, htarget, lowWord_displacement]

/-! ## The result -/

/-- The result of assembling a source, read off its program. -/
theorem assemble_eq (isa : InstructionSet) (source : String) :
    assemble isa source =
      match scanFault? isa (Text.lines source.toList) with
      | some e => .error e
      | none =>
          match (Code.ofSource isa source).undefined? isa with
          | some name => .error (.undefinedLabel name)
          | none =>
              Image.ofWords
                ((Code.ofSource isa source).statements.mapIdx
                  ((Code.ofSource isa source).patchedWord isa))
                isa.memoryWords := by
  have hscan := Scan.result_scan isa (Text.lines source.toList)
  rw [← Code.ofSource] at hscan
  unfold assemble assembleLogged
  simp only [Logged.result_bind]
  cases hfault : scanFault? isa (Text.lines source.toList) with
  | some e =>
      rw [hfault] at hscan
      rw [hscan]
      rfl
  | none =>
      rw [hfault] at hscan
      obtain ⟨s, hresult, hs⟩ := hscan
      rw [hresult]
      simp only [Except.bind, Fixup.logged, hs.outcome_fixup]
      cases hundefined : (Code.ofSource isa source).undefined? isa with
      | some name => rfl
      | none =>
          simp only [Except.map, hs.words_fixup hundefined, Logged.emit, Logged.ofExcept]

/-- When a source assembles, and to what. -/
theorem assemble_eq_ok_iff {isa : InstructionSet} {source : String} {image : Image} :
    assemble isa source = .ok image ↔
      scanFault? isa (Text.lines source.toList) = none ∧
        (Code.ofSource isa source).undefined? isa = none ∧
        image.words = (Code.ofSource isa source).statements.mapIdx
          ((Code.ofSource isa source).patchedWord isa) ∧
        image.capacity = isa.memoryWords := by
  rw [assemble_eq]
  cases scanFault? isa (Text.lines source.toList) with
  | some e => simp
  | none =>
      cases (Code.ofSource isa source).undefined? isa with
      | some name => simp
      | none => simp [Image.ofWords_eq_ok_iff]

/-- A source assembles when it is read as a program that links, as far as the
memory goes. -/
theorem assemble_of_links {isa : InstructionSet} {source : String} {p : Code}
    (hread : p.ReadFrom isa (Text.lines source.toList)) (hlinks : p.Links isa) :
    assemble isa source =
      Image.ofWords (p.statements.mapIdx (p.patchedWord isa)) isa.memoryWords := by
  have hcode : Code.ofTexts isa (Text.lines source.toList) = p := hread.ofTexts_eq
  have hfault : scanFault? isa (Text.lines source.toList) = none := by
    rw [scanFault?_eq_none_iff, hcode]
    exact ⟨hread.isSome, hlinks.labels, hlinks.encodes⟩
  rw [assemble_eq, hfault, Code.ofSource, hcode, hlinks.defined]

/-- A source that assembles is read as a program that links. -/
theorem links_of_assemble {isa : InstructionSet} {source : String} {image : Image}
    (hassemble : assemble isa source = .ok image) :
    (Code.ofSource isa source).ReadFrom isa (Text.lines source.toList) ∧
      (Code.ofSource isa source).Links isa := by
  obtain ⟨hfault, hdefined, _⟩ := assemble_eq_ok_iff.1 hassemble
  obtain ⟨hparse, hlabels, hencodes⟩ := scanFault?_eq_none_iff.1 hfault
  exact ⟨Code.readFrom_ofTexts hparse, hlabels, hencodes, hdefined⟩

/-- Without a fault, every statement can be encoded. -/
theorem encode_of_no_fault {isa : InstructionSet} {source : String}
    (hfault : scanFault? isa (Text.lines source.toList) = none) {k : Nat} {s : Statement}
    (hs : (Code.ofSource isa source).statements[k]? = some s) :
    ∃ encoded, isa.encode s.mnemonic s.operands k = .ok encoded :=
  (scanFault?_eq_none_iff.1 hfault).2.2 k s hs

/-- Without an undefined label, every branch has a target, which lies in the
program or right behind it. -/
theorem address_of_defined {isa : InstructionSet} {p : Code}
    (hdefined : p.undefined? isa = none) {s : Statement} (hs : s ∈ p.statements) {name : String}
    (hbranch : s.branchLabel? isa = some name) :
    ∃ target, p.address? name = some target ∧ target ≤ p.statements.length := by
  obtain ⟨target, htarget⟩ := Code.exists_address?_of_mem_labels
    (Code.undefined?_eq_none_iff.1 hdefined s hs name hbranch)
  exact ⟨target, htarget, Code.address?_le htarget⟩

end Asm32
