import Asm32.Proofs.Disassembly
import Asm32.Proofs.ResolveFirst
import Mathlib.Data.List.Nodup

/-!
# The range of the assembler

Which lists of words are programs?  `InRange` gives the answer: those that fit
the memory, whose words all decode, and whose branches each go to a place in the
program or right behind it.  `exists_assemble_iff_inRange` says that the
assembler makes these lists and no others.

In one direction this is an invariant of assembling (`inRange_of_assemble`).  In
the other a source has to be found.  `Code.numbered` labels every statement
with its own address, and the end of the program too, so that each branch finds
a label at the distance it needs.
-/

namespace Asm32

/-- The words could stand in the memory as a program: they fit, each of them
decodes, and each branch goes to an address in the program or right behind it,
as far as its displacement field can tell. -/
structure InRange (isa : InstructionSet) (words : List Word) : Prop where
  fits : words.length ≤ isa.memoryWords.toNat
  decodes : ∀ word ∈ words, (isa.decode? word).isSome = true
  targets : ∀ (k : Nat) word d, words[k]? = some word → isa.decode? word = some d → d.format = .j →
    ∃ t ≤ words.length, ((isa.layout.disp.extract word).toNat : Int) =
      ((t : Int) - (k + 1)) % 2 ^ isa.layout.disp.width.toNat

/-! ## Assembled words are in range -/

/-- Every word of an assembled program decodes, and a branch goes to a label. -/
theorem InstructionSet.Consistent.decode?_of_assemble {isa : InstructionSet} (h : isa.Consistent)
    {source : String} {image : Image} (hassemble : assemble isa source = .ok image) {k : Nat}
    {word : Word} (hword : image.words[k]? = some word) :
    ∃ d, isa.decode? word = some d ∧
      (d.format = .j → ∃ t ≤ image.words.length,
        ((isa.layout.disp.extract word).toNat : Int) =
          ((t : Int) - (k + 1)) % 2 ^ isa.layout.disp.width.toNat) := by
  obtain ⟨s, hs⟩ : ∃ s, (Code.ofSource isa source).statements[k]? = some s := by
    rw [(assemble_eq_ok_iff.1 hassemble).2.2.1, List.getElem?_mapIdx,
      Option.map_eq_some_iff] at hword
    exact hword.imp fun s hs => hs.1
  rcases h.word_cases hassemble hs with ⟨i, _, t, _, hi, hformat, _, hle, hk⟩ |
    ⟨i, operands, _, hi, hformat, hreads, hk⟩
  · obtain rfl := Option.some.inj (hword.symm.trans hk)
    obtain ⟨_, hdecode, _⟩ := h.decode?_branch hi hformat (t - (k + 1))
    refine ⟨_, hdecode, fun _ => ⟨t, hle, ?_⟩⟩
    rw [h.extract_branch hi hformat, Field.toNat_ofInt_and_mask h.fits_disp]
  · obtain rfl := Option.some.inj (hword.symm.trans hk)
    rw [Instruction.pack_eq_fill]
    exact ⟨_, h.decode?_fill hi hreads.map_fst_parts, fun hj => absurd hj hformat⟩

theorem inRange_of_assemble {isa : InstructionSet} (h : isa.Consistent) {source : String}
    {image : Image} (hassemble : assemble isa source = .ok image) : InRange isa image.words where
  fits := by
    rw [← (assemble_eq_ok_iff.1 hassemble).2.2.2]
    exact image.fits
  decodes := by
    intro word hmem
    obtain ⟨k, hword⟩ := List.mem_iff_getElem?.1 hmem
    obtain ⟨d, hdecode, _⟩ := h.decode?_of_assemble hassemble hword
    rw [hdecode, Option.isSome_some]
  targets := by
    intro k word d hword hdecode hformat
    obtain ⟨d', hdecode', htarget⟩ := h.decode?_of_assemble hassemble hword
    obtain rfl := Option.some.inj (hdecode'.symm.trans hdecode)
    exact htarget hformat

/-! ## Every list in range is assembled -/

namespace Code

/-- The program whose statements are labelled with their own addresses. -/
def numberedLines (statements : List Statement) : Code :=
  statements.mapIdx fun k s => ⟨some (Text.decimal k), some s⟩

/-- The program with a label at each address, and one at its end. -/
def numbered (statements : List Statement) : Code :=
  numberedLines statements ++ [⟨some (Text.decimal statements.length), none⟩]

theorem numberedLines_concat (ss : List Statement) (s : Statement) :
    numberedLines (ss ++ [s]) =
      numberedLines ss ++ [⟨some (Text.decimal ss.length), some s⟩] := by
  rw [numberedLines, List.mapIdx_concat]
  rfl

theorem statements_numberedLines (ss : List Statement) : (numberedLines ss).statements = ss := by
  induction ss using List.reverseRecOn with
  | nil => rfl
  | append_singleton ss s ih => rw [numberedLines_concat, statements_concat, ih]; rfl

@[simp] theorem statements_numbered (ss : List Statement) : (numbered ss).statements = ss := by
  rw [numbered, statements_concat, statements_numberedLines]
  exact List.append_nil ss

theorem labels_numberedLines (ss : List Statement) :
    (numberedLines ss).labels = (List.range ss.length).map Text.decimal := by
  induction ss using List.reverseRecOn with
  | nil => rfl
  | append_singleton ss s ih =>
      rw [numberedLines_concat, labels_concat, ih, List.length_append, List.length_singleton,
        List.range_succ, List.map_append]
      rfl

theorem nodup_labels_numbered (ss : List Statement) : (numbered ss).labels.Nodup := by
  have hlabels : (numbered ss).labels = (List.range (ss.length + 1)).map Text.decimal := by
    rw [numbered, labels_concat, labels_numberedLines, List.range_succ, List.map_append]
    rfl
  rw [hlabels]
  exact List.Nodup.map (fun _ _ => Text.decimal_injective) List.nodup_range

theorem address?_numberedLines (ss : List Statement) (t : Nat) :
    (numberedLines ss).address? (Text.decimal t) = if t < ss.length then some t else none := by
  induction ss using List.reverseRecOn with
  | nil => rfl
  | append_singleton ss s ih =>
      rw [numberedLines_concat, address?_concat, ih, statements_numberedLines, List.length_append,
        List.length_singleton]
      rcases Nat.lt_trichotomy t ss.length with ht | rfl | ht
      · rw [if_pos ht, Option.some_or, if_pos (Nat.lt_succ_of_lt ht)]
      · simp
      · have hne : Text.decimal ss.length ≠ Text.decimal t := fun h =>
          absurd (Text.decimal_injective h) (Nat.ne_of_lt ht)
        have hlast : ¬t < ss.length + 1 := by omega
        rw [if_neg (Nat.lt_asymm ht), Option.none_or, if_neg hlast, if_neg]
        simpa using hne

theorem isWritable_numbered {indexed : Bool} {ss : List Statement}
    (h : ∀ s ∈ ss, s.isWritable indexed = true) :
    ∀ line ∈ numbered ss, line.isWritable indexed = true := by
  intro line hline
  rcases List.mem_append.1 hline with hstatement | hend
  · obtain ⟨k, hk, rfl⟩ := List.mem_mapIdx.1 hstatement
    simp [Line.isWritable, isIdentifier_decimal, h _ (List.getElem_mem hk)]
  · obtain rfl := List.mem_singleton.1 hend
    simp [Line.isWritable, isIdentifier_decimal]

/-- The label with the number of an address is at that address. -/
theorem address?_numbered {ss : List Statement} {t : Nat} (ht : t ≤ ss.length) :
    (numbered ss).address? (Text.decimal t) = some t := by
  rw [numbered, address?_concat, address?_numberedLines, statements_numberedLines]
  rcases Nat.lt_or_eq_of_le ht with ht | rfl
  · rw [if_pos ht, Option.some_or]
  · simp

end Code

/-- A statement that can stand for a word at address `k` of a program with
numbered labels up to `count`. -/
structure StandsFor (isa : InstructionSet) (count k : Nat) (word : Word) (s : Statement) :
    Prop where
  writable : s.isWritable isa.indexed = true
  encodes : ∃ encoded, isa.encode s.mnemonic s.operands k = .ok encoded
  label : ∀ name, s.branchLabel? isa = some name → ∃ t ≤ count, name = Text.decimal t
  word : ∀ p : Code, (∀ t ≤ count, p.address? (Text.decimal t) = some t) →
    p.patchedWord isa k s = word

namespace InstructionSet.Consistent

variable {isa : InstructionSet} {word : Word} {d : Decoded}

/-- A word that is no branch is written as it decodes. -/
theorem standsFor_statement (h : isa.Consistent) (hname : isIdentifier d.mnemonic = true)
    (hdecode : isa.decode? word = some d) (hformat : d.format ≠ .j) (count k : Nat) :
    StandsFor isa count k word d.statement := by
  refine ⟨h.isWritable_statement_of_isIdentifier hname hdecode hformat,
    ⟨_, h.encode_statement hdecode hformat k⟩, ?_, ?_⟩
  · rw [h.branchLabel?_statement hdecode hformat]
    simp
  · intro p _
    exact h.patchedWord_statement hdecode hformat p k

/-- A branch is written with the number of an address that it reaches. -/
theorem standsFor_branch (h : isa.Consistent) (hmnemonic : isIdentifier d.mnemonic = true)
    (hdecode : isa.decode? word = some d) (hformat : d.format = .j) {count k t : Nat}
    (ht : t ≤ count)
    (hdisp : ((isa.layout.disp.extract word).toNat : Int) =
      ((t : Int) - (k + 1)) % 2 ^ isa.layout.disp.width.toNat) :
    StandsFor isa count k word ⟨d.mnemonic, [.plain (Text.decimal t)]⟩ := by
  obtain ⟨i, hi, hsame, hj, hword⟩ := h.branch_eq hdecode hformat
  have hname := isIdentifier_decimal t
  have hlookup : isa.lookup? d.mnemonic = some i := by
    rw [← hsame, h.lookup?_of_mem hi]
  have hlabel : Statement.branchLabel? isa ⟨d.mnemonic, [.plain (Text.decimal t)]⟩ =
      some (Text.decimal t) := by
    simp [Statement.branchLabel?, hlookup, hj]
  have hreads : Slot.ReadsAll isa i.format.slots [.plain (Text.decimal t)]
      [.label (Text.decimal t)] := by
    rw [hj]
    exact .cons (.label hname) .nil
  obtain ⟨encoded, hencode⟩ :
      ∃ encoded, isa.encode d.mnemonic [.plain (Text.decimal t)] k = .ok encoded :=
    ⟨_, encode_eq_ok_iff.2 ⟨i, _, hlookup, hreads, rfl⟩⟩
  refine ⟨?_, ⟨encoded, hencode⟩, ?_, ?_⟩
  · simp [Statement.isWritable, RawOperand.isWritable, hmnemonic,
      Token.isWord_of_isIdentifier hname]
  · intro name hsome
    rw [hlabel, Option.some.injEq] at hsome
    exact ⟨t, ht, hsome.symm⟩
  · intro p haddress
    rw [h.patchedWord_eq_resolvedWord p (s := ⟨d.mnemonic, [.plain (Text.decimal t)]⟩) hencode]
    simp only [Code.resolvedWord, hlookup, hlabel, haddress t ht, Option.getD_some]
    exact hword _ hdisp

/-- Every word of a list in range has a statement that can stand for it, if its
mnemonic is a name. -/
theorem exists_standsFor (h : isa.Consistent) {words : List Word} (hrange : InRange isa words)
    (hnames : ∀ d, isa.decode? word = some d → isIdentifier d.mnemonic = true) {k : Nat}
    (hword : words[k]? = some word) :
    ∃ s, StandsFor isa words.length k word s := by
  obtain ⟨d, hdecode⟩ := Option.isSome_iff_exists.1
    (hrange.decodes word (List.mem_of_getElem? hword))
  by_cases hformat : d.format = .j
  · obtain ⟨t, ht, hdisp⟩ := hrange.targets k word d hword hdecode hformat
    exact ⟨_, h.standsFor_branch (hnames d hdecode) hdecode hformat ht hdisp⟩
  · exact ⟨_, h.standsFor_statement (hnames d hdecode) hdecode hformat _ k⟩

end InstructionSet.Consistent

/-- Statements that stand for words assemble to them when they are numbered. -/
theorem exists_assemble_numbered {isa : InstructionSet} (h : isa.Consistent)
    {statements : List Statement} {words : List Word}
    (hlength : statements.length = words.length)
    (hfits : words.length ≤ isa.memoryWords.toNat)
    (hstands : ∀ (k : Nat) s, statements[k]? = some s →
      ∃ word, words[k]? = some word ∧ StandsFor isa words.length k word s) :
    ∃ image, assemble isa (Code.numbered statements).render = .ok image ∧
      image.words = words := by
  have hmem : ∀ s ∈ statements, ∃ k word, StandsFor isa words.length k word s := by
    intro s hs
    obtain ⟨k, hs⟩ := List.mem_iff_getElem?.1 hs
    obtain ⟨word, _, hstand⟩ := hstands k s hs
    exact ⟨k, word, hstand⟩
  have haddress : ∀ t ≤ words.length,
      (Code.numbered statements).address? (Text.decimal t) = some t := by
    intro t ht
    exact Code.address?_numbered (by rwa [hlength])
  have hwritable : ∀ s ∈ statements, s.isWritable isa.indexed = true := by
    intro s hs
    obtain ⟨_, _, hstand⟩ := hmem s hs
    exact hstand.writable
  have hencodes : ∀ (k : Nat) s, (Code.numbered statements).statements[k]? = some s →
      ∃ encoded, isa.encode s.mnemonic s.operands k = .ok encoded := by
    intro k s hs
    rw [Code.statements_numbered] at hs
    obtain ⟨_, _, hstand⟩ := hstands k s hs
    exact hstand.encodes
  have hdefined : (Code.numbered statements).undefined? isa = none := by
    rw [Code.undefined?, Code.statements_numbered, List.findSome?_eq_none_iff]
    intro s hs
    obtain ⟨_, _, hstand⟩ := hmem s hs
    rw [Option.filter_eq_none_iff]
    intro name hname
    obtain ⟨t, ht, rfl⟩ := hstand.label name hname
    simp [haddress t ht]
  have hwritable' := Code.isWritable_numbered hwritable
  rw [assemble_of_lines (Code.lines_render hwritable') h.comment hwritable'
    ⟨Code.nodup_labels_numbered statements, hencodes, hdefined⟩, Code.statements_numbered]
  refine ⟨⟨words, isa.memoryWords, hfits⟩, Image.ofWords_eq_ok_iff.2 ⟨?_, rfl⟩, rfl⟩
  apply List.ext_getElem?
  intro k
  rw [List.getElem?_mapIdx]
  cases hs : statements[k]? with
  | none =>
      rw [List.getElem?_eq_none_iff, hlength] at hs
      rw [Option.map_none, List.getElem?_eq_none hs]
  | some s =>
      obtain ⟨word, hword, hstand⟩ := hstands k s hs
      rw [Option.map_some, hstand.word _ haddress, hword]

/-- A list in range is assembled from a numbered program, if the mnemonics of its
words are names. -/
theorem exists_assemble_of_isIdentifier {isa : InstructionSet} (h : isa.Consistent)
    {words : List Word} (hrange : InRange isa words)
    (hnames : ∀ word ∈ words, ∀ d, isa.decode? word = some d → isIdentifier d.mnemonic = true) :
    ∃ source image, assemble isa source = .ok image ∧ image.words = words := by
  -- One statement for each word; where there is no word, any statement will do.
  have hchoose : ∀ k word, ∃ s, words[k]? = some word → StandsFor isa words.length k word s := by
    intro k word
    by_cases hword : words[k]? = some word
    · have hname := hnames word (List.mem_of_getElem? hword)
      exact (h.exists_standsFor hrange hname hword).imp fun s hs _ => hs
    · exact ⟨⟨"", []⟩, fun hword' => absurd hword' hword⟩
  choose statementFor hstands using hchoose
  have hlength : (words.mapIdx statementFor).length = words.length := List.length_mapIdx
  refine ⟨_, exists_assemble_numbered h hlength hrange.fits ?_⟩
  intro k s hs
  rw [List.getElem?_mapIdx, Option.map_eq_some_iff] at hs
  obtain ⟨word, hword, rfl⟩ := hs
  exact ⟨word, hword, hstands k word hword⟩

theorem exists_assemble_of_inRange {isa : InstructionSet} (h : isa.Consistent)
    (hnames : ∀ i ∈ isa.instructions, isIdentifier i.mnemonic = true) {words : List Word}
    (hrange : InRange isa words) :
    ∃ source image, assemble isa source = .ok image ∧ image.words = words :=
  exists_assemble_of_isIdentifier h hrange fun _ _ _ =>
    InstructionSet.isIdentifier_of_decode? hnames

/-- The words that programs can be assembled to are exactly those in range. -/
theorem exists_assemble_iff_inRange {isa : InstructionSet} (hvalid : isa.validate = .ok ())
    (hnames : ∀ i ∈ isa.instructions, isIdentifier i.mnemonic = true) (words : List Word) :
    (∃ source image, assemble isa source = .ok image ∧ image.words = words) ↔
      InRange isa words := by
  have h := InstructionSet.validate_eq_ok_iff.1 hvalid
  constructor
  · intro hsource
    obtain ⟨source, image, hassemble, rfl⟩ := hsource
    exact inRange_of_assemble h hassemble
  · exact exists_assemble_of_inRange h hnames

/-- A jump back to its own address, in front of an addition. -/
theorem exists_assemble_iff_inRange_jump :
    InRange .basic [0x4000ffff#32, 0x00221800#32] ∧
      ∃ source image, assemble .basic source = .ok image ∧
        image.words = [0x4000ffff#32, 0x00221800#32] := by
  have hvalid := InstructionSet.validate_ofVariant .basic
  have hnames : ∀ i ∈ InstructionSet.basic.instructions, isIdentifier i.mnemonic = true := by
    decide
  have hassemble : assemble .basic "self: j self\n add r1, r2, r3" =
      .ok ⟨[0x4000ffff#32, 0x00221800#32], 256, by decide⟩ := rfl
  have hrange := (exists_assemble_iff_inRange hvalid hnames _).1 ⟨_, _, hassemble, rfl⟩
  exact ⟨hrange, (exists_assemble_iff_inRange hvalid hnames _).2 hrange⟩

end Asm32
