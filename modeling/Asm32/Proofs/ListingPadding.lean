import Asm32.Command.Disassembler
import Asm32.Proofs.FileTrees
import Asm32.Proofs.HexImage
import Asm32.Proofs.Packing

/-!
# Listings without padding

The disassembler drops the zeros at the end of an image unless it is asked for
them.  The rows that stay are the same either way, although the label of a row
depends on every branch of the listing and on its length.

* A zero word may be a branch, but only one to the word behind it
  (`targetOf?_zero`).  So a branch in the padding goes past every word in front of
  the padding, unless its address wraps around 64 bits
  (`not_mem_targetsFrom_zeros`).
* An address in the shorter listing is in the longer one too, so the range of
  labels makes no difference (`isListed_ofNat`).
* `take_listing_append_zeros` puts these together.  `listing_usedWords` states it
  for images and for runs of the disassembler.
-/

namespace Asm32

/-! ## Zero words -/

theorem Field.extractSigned_zero (f : Field) : f.extractSigned 0 = 0 := by
  have hextract : f.extract 0 = 0#32 := by
    rw [extract]
    simp
  rw [extractSigned, hextract]
  simp

/-- A zero word that is a branch goes to the word behind it. -/
theorem InstructionSet.targetOf?_zero {isa : InstructionSet} {address : Nat} {target : Int64}
    (h : isa.targetOf? address 0 = some target) : target = Int64.ofNat (address + 1) := by
  obtain ⟨d, hdecode, htarget⟩ := Option.bind_eq_some_iff.1 h
  obtain ⟨i, _, _, rfl⟩ := decode?_eq_some_iff.1 hdecode
  obtain ⟨operand, hoperand, hsome⟩ := List.exists_of_findSome?_eq_some htarget
  obtain ⟨slot, _, rfl⟩ := List.mem_map.1 hoperand
  cases slot with
  | register | immediate | indexed => simp [Slot.decode] at hsome
  | label =>
      simp only [Slot.decode, Field.extractSigned_zero, Option.some.injEq] at hsome
      rw [← hsome, Int64.ofNat_add]
      simp

/-! ## Labels -/

theorem InstructionSet.targetsFrom_append (isa : InstructionSet) (address : Nat)
    (words others : List Word) :
    isa.targetsFrom address (words ++ others) =
      isa.targetsFrom address words ++ isa.targetsFrom (address + words.length) others := by
  rw [targetsFrom, List.zipIdx_append, List.filterMap_append]
  rfl

/-- Addresses of 64 bits are told apart. -/
theorem eq_of_ofNat_eq {a b : Nat} (ha : a < 2 ^ 64) (hb : b < 2 ^ 64)
    (h : Int64.ofNat a = Int64.ofNat b) : a = b := by
  have hbits := congrArg (fun x => x.toBitVec.toNat) h
  simp only [Int64.toBitVec_ofNat', BitVec.toNat_ofNat] at hbits
  rwa [Nat.mod_eq_of_lt ha, Nat.mod_eq_of_lt hb] at hbits

/-- Branches in the padding do not go to the words in front of it. -/
theorem InstructionSet.not_mem_targetsFrom_zeros (isa : InstructionSet) {start zeros : Nat}
    (hend : start + zeros < 2 ^ 64) {address : Nat} (haddress : address < start) :
    Int64.ofNat address ∉ isa.targetsFrom start (List.replicate zeros 0) := by
  intro hmem
  obtain ⟨⟨word, k⟩, hentry, htarget⟩ := List.mem_filterMap.1 hmem
  obtain ⟨hlower, hupper, hword⟩ := List.mem_zipIdx hentry
  rw [List.length_replicate] at hupper
  rw [List.getElem_replicate] at hword
  dsimp only at htarget
  rw [hword] at htarget
  have hback := eq_of_ofNat_eq (by omega) (by omega) (targetOf?_zero htarget)
  omega

/-- An address of the listing is inside it unless it wraps to a negative one. -/
theorem isListed_ofNat {address length : Nat} (haddress : address < length) :
    isListed length (Int64.ofNat address) = decide (0 ≤ (Int64.ofNat address).toInt) := by
  have hle : (Int64.ofNat address).toInt ≤ address := by
    have hsize : Int64.size = 2 ^ 64 := rfl
    rw [Int64.toInt_ofNat', hsize, Int.bmod_def]
    split <;> omega
  have hlt : (Int64.ofNat address).toInt < length := by omega
  rw [isListed, decide_eq_true hlt, Bool.and_true]

/-- Padding does not change which of the other words have a label. -/
theorem InstructionSet.contains_labelled_append_zeros (isa : InstructionSet) {words : List Word}
    {zeros : Nat} (hlength : words.length + zeros < 2 ^ 64) {address : Nat}
    (haddress : address < words.length) :
    (isa.labelled (words ++ List.replicate zeros 0)).contains (Int64.ofNat address) =
      (isa.labelled words).contains (Int64.ofNat address) := by
  have hpadding := isa.not_mem_targetsFrom_zeros hlength haddress
  have hlonger : address < (words ++ List.replicate zeros 0).length := by
    rw [List.length_append]
    omega
  rw [Bool.eq_iff_iff, List.contains_iff_mem, List.contains_iff_mem, labelled, labelled,
    List.mem_filter, List.mem_filter, targetsFrom_append, List.mem_append, Nat.zero_add,
    isListed_ofNat hlonger, isListed_ofNat haddress]
  simp only [hpadding, or_false]

/-! ## Rows -/

/-- Padding adds rows at the end and leaves the others as they are. -/
theorem InstructionSet.take_listing_append_zeros (isa : InstructionSet) {words : List Word}
    {zeros : Nat} (hlength : words.length + zeros < 2 ^ 64) :
    (isa.listing (words ++ List.replicate zeros 0)).take words.length = isa.listing words := by
  rw [listing, List.zipIdx_append, List.map_append, List.take_left' (by simp), listing]
  apply List.map_congr_left
  intro entry hentry
  obtain ⟨_, hupper, _⟩ := List.mem_zipIdx hentry
  rw [Nat.zero_add] at hupper
  rw [row, row, isa.contains_labelled_append_zeros hlength hupper]

/-- The listing of an image without the zeros at its end is the front of its
listing. -/
theorem InstructionSet.listing_usedWords_eq_take (isa : InstructionSet) {words : List Word}
    (hlength : words.length < 2 ^ 64) :
    isa.listing (usedWords words) = (isa.listing words).take (usedLength words) := by
  obtain ⟨zeros, hwords⟩ := eq_usedWords_append_zeros words
  have htotal : (usedWords words).length + zeros < 2 ^ 64 := by
    rw [hwords, List.length_append, List.length_replicate] at hlength
    exact hlength
  have htake := isa.take_listing_append_zeros htotal
  rw [← hwords, length_usedWords] at htake
  exact htake.symm

/-! ## The text of a listing -/

/-- The text of the front of a listing is the front of its text. -/
theorem exists_renderListing_take (rows : List Row) (count : Nat) :
    ∃ rest, renderListing rows = renderListing (rows.take count) ++ rest := by
  refine ⟨renderListing (rows.drop count), ?_⟩
  rw [← String.toList_inj, String.toList_append]
  simp only [renderListing, String.toList_join, ← List.flatMap_append, ← List.map_append,
    List.take_append_drop]

/-! ## Runs of the disassembler -/

theorem parseHexLines_length_le {number : Nat} {lines : List (List Char)} {words : List Word}
    (h : parseHexLines number lines = .ok words) : words.length ≤ lines.length := by
  induction lines generalizing number words with
  | nil =>
      cases h
      exact Nat.le_refl _
  | cons line rest ih =>
      rw [parseHexLines] at h
      split at h
      · exact Nat.le_succ_of_le (ih h)
      · split at h
        · cases h
        · split at h
          · cases h
          next hrest =>
            cases h
            exact Nat.succ_le_succ (ih hrest)

/-- A text has no more words than characters. -/
theorem parseHexImage_length_le {text : String} {words : List Word}
    (h : parseHexImage text = .ok words) : words.length ≤ text.length := by
  calc words.length
      ≤ (Text.lines text.toList).length := parseHexLines_length_le h
    _ ≤ text.toList.length := Text.length_lines_le _
    _ = text.length := String.length_toList

namespace Disassembler

/-- Loading an image reads it from the text of its file and leaves the files as
they are. -/
theorem exists_run_loadImage (path : String) (tree : FileTree) :
    ∃ loaded, (loadImage FileTree.access path).run tree = (loaded, tree) ∧
      ∀ words, loaded = .ok words →
        ∃ text, tree.read path = .ok text ∧ parseHexImage text = .ok words := by
  rw [loadImage, FileTree.run_bind (tree.run_read path)]
  cases tree.read path with
  | error e => exact ⟨_, rfl, by simp⟩
  | ok text =>
      exact ⟨_, rfl, fun words hwords => ⟨text, rfl, mapError_eq_ok_iff.1 hwords⟩⟩

/-- What a run lists depends on the files, and on whether all words are asked for
only in which words it lists. -/
theorem exists_run_render (tree : FileTree) (options : Options) :
    ∃ loaded : Except Failure (InstructionSet × List Word),
      (∀ isa words, loaded = .ok (isa, words) →
        ∃ text, tree.read options.image = .ok text ∧ parseHexImage text = .ok words) ∧
      ∀ all, (render FileTree.access { options with all }).run tree =
        (loaded.map fun input => options.style.render
          (input.1.listing (if all then input.2 else usedWords input.2)), tree) := by
  obtain ⟨set, hset, _⟩ := options.isa.exists_run_load tree
  obtain ⟨image, himage, htext⟩ := exists_run_loadImage options.image tree
  cases set with
  | error e =>
      refine ⟨.error (.load e), by simp, fun all => ?_⟩
      rw [render, FileTree.run_bind hset]
      rfl
  | ok isa =>
      refine ⟨image.map fun words => (isa, words), ?_, fun all => ?_⟩
      · intro isa' words hloaded
        cases image with
        | error failure => cases hloaded
        | ok words' =>
            cases hloaded
            exact htext words rfl
      · rw [render, FileTree.run_bind hset]
        dsimp only
        rw [FileTree.run_bind himage]
        cases image <;> rfl

/-- How a run ends that prints what it made. -/
def reportOf : Except Failure String → Report
  | .error failure => failure.report
  | .ok text => .success text

/-- A run that fails prints nothing. -/
theorem out_report (failure : Failure) : failure.report.out = .text "" := by
  unfold Failure.report
  split <;> rfl

theorem run_runOptions (options : Options) (hout : options.out = none) {tree : FileTree}
    {made : Except Failure String}
    (hrender : (render FileTree.access options).run tree = (made, tree)) :
    (runOptions FileTree.access options).run tree = (reportOf made, tree) := by
  rw [runOptions, FileTree.run_bind hrender, hout]
  cases made <;> rfl

/-- Without the zeros at the end of its image, a run prints the front of what it
prints with them. -/
theorem exists_run_brief (tree : FileTree) {options : Options} (hstyle : options.style = .text)
    (hout : options.out = none)
    (hlength : ∀ text, tree.read options.image = .ok text → text.length < 2 ^ 64) :
    ∃ brief full, (runOptions FileTree.access { options with all := false }).run tree =
        (brief, tree) ∧
      (runOptions FileTree.access { options with all := true }).run tree = (full, tree) ∧
      brief.exit = full.exit ∧ brief.err = full.err ∧
      ∃ printed rest, brief.out = .text printed ∧ full.out = .text (printed ++ rest) := by
  obtain ⟨loaded, htext, hrender⟩ := exists_run_render tree options
  refine ⟨_, _, run_runOptions { options with all := false } hout (hrender false),
    run_runOptions { options with all := true } hout (hrender true), ?_⟩
  rw [hstyle]
  cases loaded with
  | error failure => exact ⟨rfl, rfl, "", "", out_report failure, out_report failure⟩
  | ok input =>
      obtain ⟨isa, words⟩ := input
      obtain ⟨text, hread, hparse⟩ := htext isa words rfl
      have hwords : words.length < 2 ^ 64 :=
        Nat.lt_of_le_of_lt (parseHexImage_length_le hparse) (hlength text hread)
      obtain ⟨rest, hrest⟩ := exists_renderListing_take (isa.listing words) (usedLength words)
      refine ⟨rfl, rfl, renderListing (isa.listing (usedWords words)), rest, rfl, ?_⟩
      rw [isa.listing_usedWords_eq_take hwords, ← hrest]
      rfl

end Disassembler

/-- The rows of an image without the zeros at its end are the first rows of its
listing, whatever the zero word means and however far the branches go; addresses
are 64-bit integers, so this is for images that a 64-bit memory can hold.  So a
run of the disassembler that leaves the zeros out ends as one that lists them
does, and prints the front of its text. -/
theorem listing_usedWords :
    (∀ (isa : InstructionSet) (words : List Word), words.length < 2 ^ 64 →
        isa.listing (words.take (usedLength words)) =
          (isa.listing words).take (usedLength words)) ∧
      ∀ (tree : FileTree) (options : Disassembler.Options), options.style = .text →
        options.out = none →
        (∀ text, tree.read options.image = .ok text → text.length < 2 ^ 64) →
        ∃ brief full,
          (Disassembler.runOptions FileTree.access { options with all := false }).run tree =
            (brief, tree) ∧
          (Disassembler.runOptions FileTree.access { options with all := true }).run tree =
            (full, tree) ∧
          brief.exit = full.exit ∧ brief.err = full.err ∧
          ∃ printed rest, brief.out = .text printed ∧ full.out = .text (printed ++ rest) := by
  refine ⟨fun isa words hlength => isa.listing_usedWords_eq_take hlength, ?_⟩
  intro tree options hstyle hout hlength
  exact Disassembler.exists_run_brief tree hstyle hout hlength

/-- A set where the zero word is a branch, so that the padding has labels of its
own, and a run on an image with one word of padding. -/
theorem listing_usedWords_zero_branch :
    InstructionSet.listing { InstructionSet.basic with instructions := [⟨"j", 0, .j⟩] }
          [0x0000ffff#32] =
        (InstructionSet.listing { InstructionSet.basic with instructions := [⟨"j", 0, .j⟩] }
          [0x0000ffff#32, 0#32, 0#32]).take 1 ∧
      ∃ brief full,
        (Disassembler.runOptions FileTree.access
            ⟨"image.hex", ⟨.basic, none⟩, false, .text, none⟩).run
            ⟨[(["image.hex"], .file "4000ffff\n00000000\n".toUTF8)], []⟩ =
          (brief, ⟨[(["image.hex"], .file "4000ffff\n00000000\n".toUTF8)], []⟩) ∧
        (Disassembler.runOptions FileTree.access
            ⟨"image.hex", ⟨.basic, none⟩, true, .text, none⟩).run
            ⟨[(["image.hex"], .file "4000ffff\n00000000\n".toUTF8)], []⟩ =
          (full, ⟨[(["image.hex"], .file "4000ffff\n00000000\n".toUTF8)], []⟩) ∧
        ∃ printed rest, brief.out = .text printed ∧ full.out = .text (printed ++ rest) := by
  obtain ⟨hrows, hruns⟩ := listing_usedWords
  have hread : FileTree.read ⟨[(["image.hex"], .file "4000ffff\n00000000\n".toUTF8)], []⟩
        "image.hex" =
      .ok "4000ffff\n00000000\n" := rfl
  refine ⟨hrows _ [0x0000ffff#32, 0#32, 0#32] (by decide), ?_⟩
  obtain ⟨brief, full, hbrief, hfull, _, _, hprinted⟩ :=
    hruns _ ⟨"image.hex", ⟨.basic, none⟩, false, .text, none⟩ rfl rfl <| by
      intro text htext
      rw [hread] at htext
      cases htext
      decide
  exact ⟨brief, full, hbrief, hfull, hprinted⟩

end Asm32
