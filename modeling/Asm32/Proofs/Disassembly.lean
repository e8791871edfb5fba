import Asm32.Proofs.Reassembly
import Asm32.Proofs.WrittenCode

/-!
# Disassembled words as a source

`InstructionSet.disassembly` writes the instructions that words decode to, one a
line.  Where no word is a branch this is a source, and it assembles to the words
again (`assemble_disassembly`).  The text of a branch is a signed distance,
which is not the name of a label.

The text has line breaks between its lines and none behind the last, so the
lines come back because none of them is empty (`lines_disassembly`).
-/

namespace Asm32

/-- The instructions that words decode to, each on a line of its own. -/
def InstructionSet.disassembly (isa : InstructionSet) (words : List Word) : String :=
  String.intercalate "\n" ((words.filterMap isa.decode?).map Decoded.text)

/-! ## The lines of the text -/

/-- A statement that can be written is more than an empty line. -/
theorem Statement.render_ne_nil {indexed : Bool} {s : Statement}
    (h : s.isWritable indexed = true) : s.render.toList ≠ [] := by
  have hmnemonic : s.mnemonic.toList ≠ [] := by
    simp only [isWritable, isIdentifier, Bool.and_eq_true, Bool.not_eq_true',
      List.isEmpty_eq_false_iff] at h
    exact h.1.1
  unfold render
  split
  · exact hmnemonic
  · simp [hmnemonic]

namespace Code

/-- Decoded instructions as a program without labels. -/
def ofDecoded (ds : List Decoded) : Code :=
  ds.map fun d => ⟨none, some d.statement⟩

@[simp] theorem statements_ofDecoded (ds : List Decoded) :
    (ofDecoded ds).statements = ds.map Decoded.statement := by
  rw [statements, ofDecoded, List.filterMap_map]
  exact congrFun List.filterMap_eq_map ds

@[simp] theorem labels_ofDecoded (ds : List Decoded) : (ofDecoded ds).labels = [] := by
  simp [labels, ofDecoded]

theorem isWritable_ofDecoded {indexed : Bool} {ds : List Decoded}
    (h : ∀ d ∈ ds, d.statement.isWritable indexed = true) :
    ∀ line ∈ ofDecoded ds, line.isWritable indexed = true := by
  intro line hline
  obtain ⟨d, hd, rfl⟩ := List.mem_map.1 hline
  simpa [Line.isWritable] using h d hd

end Code

variable {isa : InstructionSet} {words : List Word}

theorem lines_disassembly
    (hwritable : ∀ d ∈ words.filterMap isa.decode?, d.statement.isWritable isa.indexed = true) :
    Text.lines (isa.disassembly words).toList =
      (Code.ofDecoded (words.filterMap isa.decode?)).map fun line => line.render.toList := by
  have hlines := Code.isWritable_ofDecoded hwritable
  have htext : (isa.disassembly words).toList = List.intercalate ['\n']
      ((Code.ofDecoded (words.filterMap isa.decode?)).map fun line => line.render.toList) := by
    rw [InstructionSet.disassembly, String.toList_intercalate, Code.ofDecoded, List.map_map,
      List.map_map]
    rfl
  rw [htext]
  apply Text.lines_intercalate_newline
  · intro text htext
    obtain ⟨line, hline, rfl⟩ := List.mem_map.1 htext
    exact Line.not_mem_render (hlines line hline) (by decide) (by decide)
  · intro text htext hlast
    obtain ⟨line, hline, rfl⟩ := List.mem_map.1 htext
    exact Line.not_mem_render (c := '\r') (hlines line hline) (by decide) (by decide)
      (List.mem_of_getLast? hlast)
  · intro text htext
    obtain ⟨line, hline, rfl⟩ := List.mem_map.1 htext
    obtain ⟨d, hd, rfl⟩ := List.mem_map.1 hline
    exact Statement.render_ne_nil (hwritable d hd)

/-! ## The words of the text -/

/-- Decoding and encoding word by word gives the words back. -/
theorem mapIdx_statement {encodeAt : Nat → Statement → Word}
    (h : ∀ word ∈ words, ∃ d, isa.decode? word = some d ∧ ∀ k, encodeAt k d.statement = word) :
    ((words.filterMap isa.decode?).map Decoded.statement).mapIdx encodeAt = words := by
  induction words generalizing encodeAt with
  | nil => rfl
  | cons word rest ih =>
      rw [List.forall_mem_cons] at h
      obtain ⟨⟨d, hdecode, hword⟩, hrest⟩ := h
      rw [List.filterMap_cons_some hdecode, List.map_cons, List.mapIdx_cons, hword, ih]
      intro word' hmem
      obtain ⟨d', hdecode', hword'⟩ := hrest word' hmem
      exact ⟨d', hdecode', fun k => hword' (k + 1)⟩

/-- In any program, the statement of a word that is no branch stands for that
word. -/
theorem InstructionSet.Consistent.patchedWord_statement (h : isa.Consistent) {word : Word}
    {d : Decoded} (hdecode : isa.decode? word = some d) (hformat : d.format ≠ .j) (p : Code)
    (k : Nat) : p.patchedWord isa k d.statement = word := by
  simp only [Code.patchedWord, h.branchLabel?_statement hdecode hformat, encodedWord,
    h.encode_statement hdecode hformat k]

/-- Decoded instructions without a branch refer to no label, so they link. -/
theorem InstructionSet.Consistent.links_ofDecoded (h : isa.Consistent) {ds : List Decoded}
    (hdecoded : ∀ d ∈ ds, ∃ word, isa.decode? word = some d ∧ d.format ≠ .j) :
    (Code.ofDecoded ds).Links isa where
  labels := by simp
  encodes k s hs := by
    rw [Code.statements_ofDecoded] at hs
    obtain ⟨d, hd, rfl⟩ := List.mem_map.1 (List.mem_of_getElem? hs)
    obtain ⟨word, hdecode, hformat⟩ := hdecoded d hd
    exact ⟨_, h.encode_statement hdecode hformat k⟩
  defined := by
    rw [Code.undefined?, List.findSome?_eq_none_iff, Code.statements_ofDecoded]
    intro s hs
    obtain ⟨d, hd, rfl⟩ := List.mem_map.1 hs
    obtain ⟨word, hdecode, hformat⟩ := hdecoded d hd
    rw [h.branchLabel?_statement hdecode hformat, Option.filter_none]

/-- The text of decoded words assembles to the words, if none of them is a
branch, the mnemonics can be written and the memory is large enough. -/
theorem assemble_disassembly (hvalid : isa.validate = .ok ())
    (hnames : ∀ i ∈ isa.instructions, isIdentifier i.mnemonic = true)
    (hfits : words.length ≤ isa.memoryWords.toNat)
    (hdecodes : ∀ word ∈ words, ∃ d, isa.decode? word = some d ∧ d.format ≠ .j) :
    assemble isa (isa.disassembly words) = .ok ⟨words, isa.memoryWords, hfits⟩ := by
  have h := InstructionSet.validate_eq_ok_iff.1 hvalid
  have hdecoded : ∀ d ∈ words.filterMap isa.decode?,
      ∃ word, isa.decode? word = some d ∧ d.format ≠ .j := by
    intro d hd
    obtain ⟨word, hword, hdecode⟩ := List.mem_filterMap.1 hd
    obtain ⟨d', hdecode', hformat⟩ := hdecodes word hword
    obtain rfl := Option.some.inj (hdecode'.symm.trans hdecode)
    exact ⟨word, hdecode, hformat⟩
  have hwritable : ∀ d ∈ words.filterMap isa.decode?,
      d.statement.isWritable isa.indexed = true := by
    intro d hd
    obtain ⟨word, hdecode, hformat⟩ := hdecoded d hd
    exact h.isWritable_statement hnames hdecode hformat
  rw [assemble_of_lines (lines_disassembly hwritable) h.comment
    (Code.isWritable_ofDecoded hwritable) (h.links_ofDecoded hdecoded),
    Code.statements_ofDecoded, mapIdx_statement, Image.ofWords, dif_pos hfits]
  intro word hword
  obtain ⟨d, hdecode, hformat⟩ := hdecodes word hword
  exact ⟨d, hdecode, h.patchedWord_statement hdecode hformat _⟩

/-- A load with a negative offset, a load without one, and a trap. -/
theorem assemble_disassembly_load :
    InstructionSet.extended.disassembly [0x1812fffc#32, 0x18120000#32, 0x3000ffff#32] =
        "ld r1, -4(r2)\nld r1, (r2)\ntrap -1" ∧
      assemble .extended "ld r1, -4(r2)\nld r1, (r2)\ntrap -1" =
        .ok ⟨[0x1812fffc#32, 0x18120000#32, 0x3000ffff#32], 256, by decide⟩ := by
  have htext : InstructionSet.extended.disassembly [0x1812fffc#32, 0x18120000#32, 0x3000ffff#32] =
      "ld r1, -4(r2)\nld r1, (r2)\ntrap -1" := rfl
  refine ⟨htext, ?_⟩
  rw [← htext]
  apply assemble_disassembly (InstructionSet.validate_ofVariant .extended)
  · decide
  · intro word hword
    simp only [List.mem_cons, List.not_mem_nil, or_false] at hword
    rcases hword with rfl | rfl | rfl <;> exact ⟨_, rfl, by decide⟩

end Asm32
