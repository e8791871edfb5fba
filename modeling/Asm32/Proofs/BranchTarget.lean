import Asm32.Proofs.Lines
import Asm32.Proofs.ResolveFirst

/-!
# Where branches go

A decoded branch goes to the word behind it plus its displacement.  Assembling
cuts the displacement to its field and never looks whether it fits, so a branch
reaches its label only up to a multiple of `2 ^ width`.

* `modEq_target` and `target_eq_iff` are about the 64-bit sum that computes a
  target, for a displacement that was cut to its field.
* `branchTarget?_of_assemble` says where each branch of an assembled program
  goes.  In a memory of at most `2 ^ (width - 1)` words every displacement fits.
-/

namespace Asm32

/-! ## Sums of 64 bits -/

/-- The target of a branch, as the 64-bit sum that it is. -/
theorem toInt_target (k : Nat) (displacement : Int64) :
    (Int64.ofNat k + 1 + displacement).toInt =
      ((k : Int) + 1 + displacement.toInt).bmod (2 ^ 64) := by
  have hone : (1 : Int64).toInt = 1 := rfl
  have hsize : Int64.size = 2 ^ 64 := rfl
  rw [Int64.toInt_add, Int64.toInt_add, Int64.toInt_ofNat', hone, hsize, Int.bmod_add_bmod,
    Int.add_assoc, Int.bmod_add_bmod, Int.add_assoc]

/-- A branch whose displacement was cut to its field goes to its label up to a
multiple of the field's range. -/
theorem modEq_target {width : Nat} (hwidth : width ≤ 32) {t k : Nat} {displacement : Int64}
    (h : SignedResidue width (t - (k + 1)) displacement.toInt) :
    (Int64.ofNat k + 1 + displacement).toInt ≡ t [ZMOD 2 ^ width] := by
  have hdvd : (2 : Int) ^ width ∣ ((2 ^ 64 : Nat) : Int) := by
    have hpow : (2 : Nat) ^ width ∣ 2 ^ 64 := Nat.pow_dvd_pow 2 (by omega)
    exact_mod_cast hpow
  have hcancel : (k : Int) + 1 + (t - (k + 1)) = t := by omega
  rw [toInt_target]
  calc ((k : Int) + 1 + displacement.toInt).bmod (2 ^ 64)
      ≡ k + 1 + displacement.toInt [ZMOD 2 ^ width] := Int.ModEq.of_dvd hdvd Int.bmod_emod
    _ ≡ k + 1 + (t - (k + 1)) [ZMOD 2 ^ width] := h.modEq.add_left _
    _ ≡ t [ZMOD 2 ^ width] := by rw [hcancel]

/-- Between addresses that are 64-bit integers, a branch goes to its label
exactly when its displacement is the distance. -/
theorem target_eq_iff {t k : Nat} (ht : t < 2 ^ 63) (hk : k < 2 ^ 63) (displacement : Int64) :
    (Int64.ofNat k + 1 + displacement).toInt = t ↔ displacement.toInt = (t : Int) - (k + 1) := by
  have hlower := displacement.le_toInt
  have hupper := displacement.toInt_lt
  rw [toInt_target, Int.bmod_def]
  split <;> omega

/-! ## Branches of a program -/

/-- A source has no more statements than characters. -/
theorem Code.length_statements_le (isa : InstructionSet) (source : String) :
    (Code.ofSource isa source).statements.length ≤ source.length := by
  calc (Code.ofSource isa source).statements.length
      ≤ (Code.ofSource isa source).length := List.length_filterMap_le _ _
    _ ≤ (Text.lines source.toList).length := List.length_filterMap_le _ _
    _ ≤ source.toList.length := Text.length_lines_le _
    _ = source.length := String.length_toList

/-- Every branch of an assembled program decodes, and goes to its label up to a
multiple of the range of the displacement field.  It goes to the label itself
exactly when the distance fits the field; addresses are 64-bit integers, so this
is stated for texts that a 64-bit memory can hold.  It always does so where the
memory is small enough. -/
theorem branchTarget?_of_assemble {isa : InstructionSet} (hvalid : isa.validate = .ok ())
    {source : String} {image : Image} (hassemble : assemble isa source = .ok image)
    {k : Nat} {s : Statement} (hs : (Code.ofSource isa source).statements[k]? = some s)
    {name : String} (hbranch : s.branchLabel? isa = some name) :
    ∃ t word d target, (Code.ofSource isa source).address? name = some t ∧
      image.words[k]? = some word ∧ isa.decode? word = some d ∧
      d.branchTarget? k = some target ∧
      target.toInt ≡ t [ZMOD 2 ^ isa.layout.disp.width.toNat] ∧
      (source.length < 2 ^ 63 →
        (target.toInt = t ↔
          -2 ^ (isa.layout.disp.width.toNat - 1) ≤ (t : Int) - (k + 1) ∧
            (t : Int) - (k + 1) < 2 ^ (isa.layout.disp.width.toNat - 1))) ∧
      (isa.memoryWords.toNat ≤ 2 ^ (isa.layout.disp.width.toNat - 1) → target.toInt = t) := by
  have h := InstructionSet.validate_eq_ok_iff.1 hvalid
  obtain ⟨hwidth, hfits⟩ := Field.fitsWord_iff.1 h.fits_disp
  rcases h.word_cases hassemble hs with ⟨i, name', t, hlabel, hi, hformat, ht, hle, hword⟩ |
    ⟨_, _, hnone, _⟩
  · rw [hbranch, Option.some.injEq] at hlabel
    subst hlabel
    obtain ⟨displacement, hdecode, hresidue⟩ := h.decode?_branch hi hformat (t - (k + 1))
    have hk : k < image.words.length := (List.getElem?_eq_some_iff.1 hword).1
    obtain ⟨_, _, hwords, hcapacity⟩ := assemble_eq_ok_iff.1 hassemble
    refine ⟨t, _, _, Int64.ofNat k + 1 + displacement, ht, hword, hdecode, rfl,
      modEq_target (by omega) hresidue, ?_, ?_⟩
    · intro hsource
      -- Both addresses are below the length of the source, so the sum does not wrap.
      have hlength : image.words.length ≤ source.length := by
        rw [hwords, List.length_mapIdx]
        exact Code.length_statements_le isa source
      rw [target_eq_iff (by omega) (by omega), hresidue.eq_iff_inRange hwidth]
    · intro hmemory
      have hlength := image.fits
      rw [hcapacity] at hlength
      have hcast : (isa.memoryWords.toNat : Int) ≤ 2 ^ (isa.layout.disp.width.toNat - 1) := by
        exact_mod_cast hmemory
      have hsmall : 2 ^ (isa.layout.disp.width.toNat - 1) ≤ 2 ^ 31 :=
        Nat.pow_le_pow_right (by decide) (by omega)
      rw [target_eq_iff (by omega) (by omega), hresidue.eq_iff_inRange hwidth]
      omega
  · rw [hbranch] at hnone
    cases hnone

/-- A branch back over the word before it. -/
theorem branchTarget?_of_assemble_loop :
    ∃ image, assemble .extended "loop: b done\n bne loop\ndone:" = .ok image ∧
      ∃ t word d target, image.words[1]? = some word ∧
        InstructionSet.extended.decode? word = some d ∧ d.branchTarget? 1 = some target ∧
        (Code.ofSource .extended "loop: b done\n bne loop\ndone:").address? "loop" = some t ∧
        target.toInt = t := by
  have hassemble : assemble .extended "loop: b done\n bne loop\ndone:" =
      .ok ⟨[0x20000001#32, 0x2200fffe#32], 256, by decide⟩ := rfl
  have hs : (Code.ofSource .extended "loop: b done\n bne loop\ndone:").statements[1]? =
      some ⟨"bne", [.plain "loop"]⟩ := rfl
  have hvalid := InstructionSet.validate_ofVariant .extended
  obtain ⟨t, word, d, target, ht, hword, hdecode, htarget, _, _, hsmall⟩ :=
    branchTarget?_of_assemble hvalid hassemble hs rfl
  exact ⟨_, hassemble, t, word, d, target, hword, hdecode, htarget, ht, hsmall (by decide)⟩

end Asm32
