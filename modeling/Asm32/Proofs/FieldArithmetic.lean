import Asm32.Assembly.Labels
import Mathlib.Data.Int.ModEq

/-!
# Arithmetic of bit fields

`Asm32.Field` says what each operation does to a single bit.  This file says
what the operations do to numbers, for fields that fit the word.

* Two fields are `Disjoint` when one ends before the other starts.  For fields
  that fit the word this is what `Field.overlaps` tests
  (`overlaps_eq_false_iff`), and placing a value in one field is invisible in
  the other (`extract_place_of_disjoint`).
* `extract_place` and `place_extract` are the two round trips.  The first cuts
  the value to the field, the second cuts the word to it.
* `SignedResidue` names the number that two's complement keeps of an integer.
  `signedResidue_extractSigned` finds it in the field, whatever integer was cut
  down.
* `lowWord_ofInt` and `lowWord_displacement` take the detour through 64 bits
  out of the way: the low word of a number is its residue modulo `2 ^ 32`.
* `extract_replace` and `extract_replace_of_overlaps` say what overwriting a
  field does to it and to the others; `laws_of_fitsWord` has all laws together.
-/

namespace Asm32

/-! ## Two's complement residues -/

/-- `residue` is what a two's complement number of `width` bits keeps of
`value`. -/
structure SignedResidue (width : Nat) (value residue : Int) : Prop where
  lower : -2 ^ (width - 1) ≤ residue
  upper : residue < 2 ^ (width - 1)
  modEq : residue ≡ value [ZMOD 2 ^ width]

theorem two_pow_eq_double {width : Nat} (hwidth : 1 ≤ width) :
    (2 : Int) ^ width = 2 * 2 ^ (width - 1) := by
  obtain ⟨n, rfl⟩ : ∃ n, width = n + 1 := ⟨width - 1, by omega⟩
  rw [Nat.add_sub_cancel, Int.pow_succ, Int.mul_comm]

/-- The signed residue of an integer is its balanced remainder, and there is no
other. -/
theorem signedResidue_iff {width : Nat} (hwidth : 1 ≤ width) {value residue : Int} :
    SignedResidue width value residue ↔ residue = value.bmod (2 ^ width) := by
  have hdouble := two_pow_eq_double hwidth
  have hcast : ((2 ^ width : Nat) : Int) = 2 ^ width := by norm_cast
  rw [eq_comm, Int.bmod_eq_iff (Nat.two_pow_pos width), hcast]
  have hhalf : (2 : Int) ^ width / 2 = 2 ^ (width - 1) := by omega
  have hhalf' : ((2 : Int) ^ width + 1) / 2 = 2 ^ (width - 1) := by omega
  rw [hhalf, hhalf']
  constructor
  · intro hresidue
    obtain ⟨hlower, hupper, hmod⟩ := hresidue
    exact ⟨hlower, hupper, hmod.symm.dvd⟩
  · intro hremainder
    obtain ⟨hlower, hupper, hdvd⟩ := hremainder
    exact ⟨hlower, hupper, (Int.modEq_iff_dvd.2 hdvd).symm⟩

/-- An integer in range is its own residue, and no other integer is. -/
theorem SignedResidue.eq_iff_inRange {width : Nat} (hwidth : 1 ≤ width) {value residue : Int}
    (h : SignedResidue width value residue) :
    residue = value ↔ -2 ^ (width - 1) ≤ value ∧ value < 2 ^ (width - 1) := by
  constructor
  · intro hexact
    subst hexact
    exact ⟨h.lower, h.upper⟩
  · intro hrange
    obtain ⟨hlower, hupper⟩ := hrange
    have hself : SignedResidue width value value := ⟨hlower, hupper, Int.ModEq.refl value⟩
    rw [(signedResidue_iff hwidth).1 h, ← (signedResidue_iff hwidth).1 hself]

/-! ## The highest bit of a number -/

theorem two_pow_xor {b k : Nat} (h : b < 2 ^ k) : 2 ^ k ^^^ b = 2 ^ k + b := by
  have hor := Nat.two_pow_add_eq_or_of_lt h 1
  rw [Nat.mul_one] at hor
  rw [hor]
  apply Nat.eq_of_testBit_eq
  intro i
  rw [Nat.testBit_xor, Nat.testBit_or, Nat.testBit_two_pow]
  by_cases hi : k = i
  · subst hi
    simp [Nat.testBit_lt_two_pow h]
  · simp [hi]

/-- The highest bit of a number below `2 ^ (k + 1)`, flipped and taken off, counts
negative. -/
theorem xor_two_pow_sub {a k : Nat} (h : a < 2 ^ (k + 1)) :
    ((a ^^^ 2 ^ k : Nat) : Int) - (2 ^ k : Nat) =
      if a.testBit k then (a : Int) - (2 ^ (k + 1) : Nat) else a := by
  by_cases hlow : a < 2 ^ k
  · rw [Nat.xor_comm, two_pow_xor hlow, Nat.testBit_lt_two_pow hlow]
    push_cast
    simp
  · obtain ⟨b, rfl⟩ : ∃ b, a = 2 ^ k + b := ⟨a - 2 ^ k, by omega⟩
    have hb : b < 2 ^ k := by omega
    have hbit : (2 ^ k + b).testBit k = true := by
      rw [Nat.testBit_two_pow_add_eq, Nat.testBit_lt_two_pow hb]
      rfl
    rw [hbit, ← two_pow_xor hb, Nat.xor_comm, ← Nat.xor_assoc, Nat.xor_self, Nat.zero_xor,
      two_pow_xor hb]
    push_cast
    rw [if_pos rfl]
    omega

theorem ofNat_xor_ofNat (a b : Nat) : Int64.ofNat a ^^^ Int64.ofNat b = Int64.ofNat (a ^^^ b) := by
  rw [← Int64.toBitVec_inj]
  simp [BitVec.ofNat_xor]

namespace Field

/-! ## Fields that fit the word -/

/-- The field is known to fit the word. -/
def fitsWord (f : Field) : Bool :=
  f.fitsWord? == some true

/-- Where there is an end, it is the sum. -/
theorem end?_eq_some_iff {f : Field} {bit : UInt32} :
    f.end? = some bit ↔ bit.toNat = f.shift.toNat + f.width.toNat := by
  have hbit := bit.toNat_lt_size
  unfold end?
  split
  next hlt =>
    rw [Option.some.injEq, eq_comm, ← UInt32.toNat_inj, UInt32.toNat_add, Nat.mod_eq_of_lt hlt]
  next =>
    simp only [reduceCtorEq, false_iff]
    omega

theorem end?_eq_none_iff {f : Field} :
    f.end? = none ↔ 2 ^ 32 ≤ f.shift.toNat + f.width.toNat := by
  have hsize : UInt32.size = 2 ^ 32 := rfl
  unfold end?
  split
  next hlt =>
    simp only [reduceCtorEq, false_iff]
    omega
  next hge =>
    simp only [true_iff]
    omega

/-- The three answers to whether a field fits the word: an empty field does not,
and of the others it depends on the sum, which may be out of reach. -/
theorem fitsWord?_eq (f : Field) :
    f.fitsWord? =
      if f.width.toNat = 0 then some false
      else if 2 ^ 32 ≤ f.shift.toNat + f.width.toNat then none
      else some (decide (f.shift.toNat + f.width.toNat ≤ 32)) := by
  have hzero : f.width = 0 ↔ f.width.toNat = 0 := UInt32.toNat_inj.symm
  unfold fitsWord?
  simp only [hzero]
  cases hend : f.end? with
  | none => rw [Option.map_none, if_pos (end?_eq_none_iff.1 hend)]
  | some bit =>
      have hbit := end?_eq_some_iff.1 hend
      have hlt : ¬2 ^ 32 ≤ bit.toNat := Nat.not_le.2 bit.toNat_lt
      rw [Option.map_some, ← hbit, if_neg hlt]
      rfl

theorem fitsWord_iff {f : Field} :
    f.fitsWord = true ↔ 1 ≤ f.width.toNat ∧ f.shift.toNat + f.width.toNat ≤ 32 := by
  rw [fitsWord, beq_iff_eq, fitsWord?_eq]
  split_ifs <;> simp <;> omega

/-- One of the two fields ends before the other starts. -/
def Disjoint (f g : Field) : Prop :=
  f.shift.toNat + f.width.toNat ≤ g.shift.toNat ∨ g.shift.toNat + g.width.toNat ≤ f.shift.toNat

theorem Disjoint.symm {f g : Field} (h : f.Disjoint g) : g.Disjoint f :=
  Or.symm h

/-- The bits of disjoint fields are never the same. -/
theorem Disjoint.not_both {f g : Field} (h : f.Disjoint g) (i : Nat) :
    (f.maskInPlace.getLsbD i && g.maskInPlace.getLsbD i) = false := by
  rw [Bool.eq_false_iff]
  intro hboth
  simp only [getLsbD_maskInPlace, Bool.and_eq_true, decide_eq_true_eq] at hboth
  unfold Disjoint at h
  omega

/-- Two fields do not overlap exactly when no bit of the word is in both. -/
theorem overlaps_eq_false_iff_not_both {f g : Field} :
    f.overlaps g = false ↔
      ∀ i, (f.maskInPlace.getLsbD i && g.maskInPlace.getLsbD i) = false := by
  rw [overlaps, bne_eq_false_iff_eq]
  constructor
  · intro hmasks i
    rw [← BitVec.getLsbD_and, hmasks]
    exact BitVec.getLsbD_zero
  · intro hbits
    apply BitVec.eq_of_getLsbD_eq
    intro i _
    rw [BitVec.getLsbD_and, hbits i]
    exact BitVec.getLsbD_zero.symm

/-- Overlap of masks is overlap of bit ranges. -/
theorem overlaps_eq_false_iff {f g : Field} (hf : f.fitsWord = true) (hg : g.fitsWord = true) :
    f.overlaps g = false ↔ f.Disjoint g := by
  rw [overlaps_eq_false_iff_not_both]
  constructor
  · intro hbits
    rw [fitsWord_iff] at hf hg
    by_contra hshare
    unfold Disjoint at hshare
    -- The higher of the two lowest bits lies in both fields.
    have hbit : (f.maskInPlace.getLsbD (max f.shift.toNat g.shift.toNat) &&
        g.maskInPlace.getLsbD (max f.shift.toNat g.shift.toNat)) = true := by
      simp only [getLsbD_maskInPlace, Bool.and_eq_true, decide_eq_true_eq]
      simp only [wordBits]
      omega
    rw [hbits] at hbit
    cases hbit
  · intro hdisjoint
    exact hdisjoint.not_both

/-! ## Placing and extracting -/

/-- A field of a combined word combines the fields. -/
theorem extract_or (f : Field) (a b : Word) :
    f.extract (a ||| b) = f.extract a ||| f.extract b := by
  apply BitVec.eq_of_getLsbD_eq
  intro i _
  simp only [getLsbD_extract, BitVec.getLsbD_or, Bool.and_or_distrib_left]

/-- A field reads back what was placed in it, cut to its width. -/
theorem extract_place {f : Field} (hfits : f.fitsWord = true) (value : Word) :
    f.extract (f.place value) = value &&& f.mask := by
  rw [fitsWord_iff] at hfits
  apply BitVec.eq_of_getLsbD_eq
  intro i hi
  simp only [getLsbD_extract, getLsbD_place, getLsbD_maskInPlace, BitVec.getLsbD_and, getLsbD_mask,
    Nat.add_sub_cancel_left]
  by_cases hin : i < f.width.toNat
  · have hword : f.shift.toNat + i < wordBits := by
      simp only [wordBits]
      omega
    have hi' : i < wordBits := hi
    simp [hin, hword, hi']
  · simp [hin]

/-- A value placed in one field is invisible in a disjoint one. -/
theorem extract_place_of_disjoint {f g : Field} (hdisjoint : f.Disjoint g) (value : Word) :
    f.extract (g.place value) = 0#32 := by
  apply BitVec.eq_of_getLsbD_eq
  intro i _
  refine Eq.trans ?_ BitVec.getLsbD_zero.symm
  rw [Bool.eq_false_iff]
  intro hbit
  simp only [getLsbD_extract, getLsbD_place, getLsbD_maskInPlace, Bool.and_eq_true,
    decide_eq_true_eq] at hbit
  unfold Disjoint at hdisjoint
  omega

/-- Putting a field back where it was read gives its part of the word. -/
theorem place_extract (f : Field) (word : Word) :
    f.place (f.extract word) = word &&& f.maskInPlace := by
  apply BitVec.eq_of_getLsbD_eq
  intro i _
  simp only [getLsbD_place, getLsbD_extract, BitVec.getLsbD_and]
  cases hin : f.maskInPlace.getLsbD i with
  | false => simp
  | true =>
      simp only [getLsbD_maskInPlace, Bool.and_eq_true, decide_eq_true_eq] at hin
      have hback : f.shift.toNat + (i - f.shift.toNat) = i := by omega
      have hwidth : i - f.shift.toNat < f.width.toNat := by omega
      simp [hback, hwidth]

/-- Placing depends on the value only through the bits that the field keeps. -/
theorem place_and_mask (f : Field) (value : Word) : f.place (value &&& f.mask) = f.place value := by
  rw [place, place, BitVec.and_assoc, BitVec.and_self]

/-- Replacing a field that a placed value does not reach adds to it. -/
theorem replace_place_of_disjoint {f g : Field} (hdisjoint : f.Disjoint g) (a b : Word) :
    f.replace (g.place a) b = g.place a ||| f.place b := by
  apply BitVec.eq_of_getLsbD_eq
  intro i _
  have hnot := hdisjoint.not_both i
  simp only [getLsbD_replace, BitVec.getLsbD_or, getLsbD_place]
  cases hin : f.maskInPlace.getLsbD i with
  | false => simp
  | true =>
      rw [hin, Bool.true_and] at hnot
      simp [hnot]

/-- A field that is overwritten twice has the second value. -/
theorem replace_replace (f : Field) (word a b : Word) :
    f.replace (f.replace word a) b = f.replace word b := by
  apply BitVec.eq_of_getLsbD_eq
  intro i _
  simp only [getLsbD_replace]
  by_cases hin : f.maskInPlace.getLsbD i = true
  · rw [if_pos hin, if_pos hin]
  · rw [if_neg hin, if_neg hin, if_neg hin]

/-- A field that is overwritten reads back as the value, cut to its width. -/
theorem extract_replace {f : Field} (hfits : f.fitsWord = true) (word value : Word) :
    f.extract (f.replace word value) = value &&& f.mask := by
  have hcleared : f.extract (word &&& ~~~f.maskInPlace) = 0#32 := by
    apply BitVec.eq_of_getLsbD_eq
    intro i _
    refine Eq.trans ?_ BitVec.getLsbD_zero.symm
    rw [Bool.eq_false_iff]
    intro hbit
    simp only [getLsbD_extract, BitVec.getLsbD_and, BitVec.getLsbD_not, getLsbD_maskInPlace,
      Bool.and_eq_true, Bool.not_eq_true', Bool.and_eq_false_iff, decide_eq_true_eq,
      decide_eq_false_iff_not] at hbit
    simp only [wordBits] at hbit
    omega
  rw [replace, extract_or, extract_place hfits, hcleared, BitVec.zero_or]

/-- A field that does not overlap the one that is overwritten keeps its value. -/
theorem extract_replace_of_overlaps {f g : Field} (h : f.overlaps g = false) (word value : Word) :
    g.extract (f.replace word value) = g.extract word := by
  apply BitVec.eq_of_getLsbD_eq
  intro i _
  have hnot := overlaps_eq_false_iff_not_both.1 h (g.shift.toNat + i)
  simp only [getLsbD_extract, getLsbD_replace]
  cases hin : f.maskInPlace.getLsbD (g.shift.toNat + i) with
  | false => simp
  | true =>
      -- The bit is in `f`, so it lies past the end of `g`.
      rw [hin, Bool.true_and, getLsbD_maskInPlace] at hnot
      simp only [getLsbD_maskInPlace, Bool.and_eq_true, decide_eq_true_eq] at hin
      have hpast : ¬ i < g.width.toNat := by
        simp only [Bool.and_eq_false_iff, decide_eq_false_iff_not] at hnot
        omega
      simp [hpast]

/-! ## Values of fields -/

theorem toNat_mask {f : Field} (hfits : f.fitsWord = true) :
    f.mask.toNat = 2 ^ f.width.toNat - 1 := by
  rw [fitsWord_iff] at hfits
  have hmin : min f.width.toNat wordBits = f.width.toNat := by
    simp only [wordBits]
    omega
  have hlt : 2 ^ f.width.toNat ≤ 2 ^ 32 := Nat.pow_le_pow_right (by decide) (by omega)
  have hpos := Nat.two_pow_pos f.width.toNat
  rw [mask, hmin, Nat.one_shiftLeft, BitVec.toNat_ofNat, Nat.mod_eq_of_lt (by omega)]

/-- Cutting a value to a field takes it modulo the size of the field. -/
theorem toNat_and_mask {f : Field} (hfits : f.fitsWord = true) (value : Word) :
    (value &&& f.mask).toNat = value.toNat % 2 ^ f.width.toNat := by
  rw [BitVec.toNat_and, toNat_mask hfits, Nat.and_two_pow_sub_one_eq_mod]

/-- What a field holds is below the size of the field. -/
theorem toNat_extract_lt {f : Field} (hfits : f.fitsWord = true) (word : Word) :
    (f.extract word).toNat < 2 ^ f.width.toNat := by
  rw [extract, toNat_and_mask hfits]
  exact Nat.mod_lt _ (Nat.two_pow_pos f.width.toNat)

/-- A value that the field can hold is not cut. -/
theorem and_mask_of_le {f : Field} (hfits : f.fitsWord = true) {value : Word}
    (hvalue : value.toNat ≤ f.maxValue.toNat) : value &&& f.mask = value := by
  apply BitVec.eq_of_toNat_eq
  have hpos := Nat.two_pow_pos f.width.toNat
  rw [maxValue, toNat_mask hfits] at hvalue
  rw [toNat_and_mask hfits, Nat.mod_eq_of_lt (by omega)]

/-- An integer cut to the word and then to a field is taken modulo the size of
the field. -/
theorem toNat_ofInt_and_mask {f : Field} (hfits : f.fitsWord = true) (value : Int) :
    (((BitVec.ofInt 32 value &&& f.mask).toNat : Nat) : Int) = value % 2 ^ f.width.toNat := by
  have hdvd : (2 : Int) ^ f.width.toNat ∣ 2 ^ 32 := by
    rw [fitsWord_iff] at hfits
    exact pow_dvd_pow 2 (by omega)
  have hnonneg : 0 ≤ value % ((2 ^ 32 : Nat) : Int) := Int.emod_nonneg _ (by decide)
  rw [toNat_and_mask hfits, BitVec.toNat_ofInt, Int.natCast_emod, Int.toNat_of_nonneg hnonneg]
  push_cast
  exact Int.emod_emod_of_dvd value hdvd

theorem signBit_eq {f : Field} (hfits : f.fitsWord = true) :
    f.signBit = Int64.ofNat (2 ^ (f.width.toNat - 1)) := by
  have hshift : ∀ n < 32, (1 : Int64) <<< Int64.ofNat n = Int64.ofNat (2 ^ n) := by decide
  obtain ⟨hpos, hend⟩ := fitsWord_iff.1 hfits
  have hwidth : (f.width - 1).toNat = f.width.toNat - 1 :=
    UInt32.toNat_sub_of_le _ _ (UInt32.le_iff_toNat_le.2 hpos)
  rw [signBit, hwidth, hshift _ (by omega)]

/-- Read as a two's complement number, the highest bit of a field counts
negative. -/
theorem toInt_extractSigned {f : Field} (hfits : f.fitsWord = true) (word : Word) :
    (f.extractSigned word).toInt =
      if (f.extract word).getLsbD (f.width.toNat - 1) then
        ((f.extract word).toNat : Int) - (2 ^ f.width.toNat : Nat)
      else
        (f.extract word).toNat := by
  have hlt := toNat_extract_lt hfits word
  have hsign := signBit_eq hfits
  obtain ⟨hpos, hend⟩ := fitsWord_iff.1 hfits
  obtain ⟨k, hk⟩ : ∃ k, f.width.toNat = k + 1 := ⟨f.width.toNat - 1, by omega⟩
  rw [hk] at hlt hsign ⊢
  have hvalue : f.extractSigned word =
      Int64.ofInt ((((f.extract word).toNat ^^^ 2 ^ k : Nat) : Int) - (2 ^ k : Nat)) := by
    rw [extractSigned, hsign, ofNat_xor_ofNat, Int64.ofInt_sub, Int64.ofInt_eq_ofNat,
      Int64.ofInt_eq_ofNat]
    rfl
  have hpow : 2 ^ (k + 1) ≤ 2 ^ 32 := Nat.pow_le_pow_right (by decide) (by omega)
  rw [hvalue, xor_two_pow_sub hlt, BitVec.getLsbD, Nat.add_sub_cancel, Int64.toInt_ofInt_of_le]
  · split <;> omega
  · split <;> omega

/-- Reading a field as a two's complement number takes the balanced remainder
of its bits. -/
theorem toInt_extractSigned_eq_bmod {f : Field} (hfits : f.fitsWord = true) (word : Word) :
    (f.extractSigned word).toInt = ((f.extract word).toNat : Int).bmod (2 ^ f.width.toNat) := by
  have hlt := toNat_extract_lt hfits word
  have hwidth := (fitsWord_iff.1 hfits).1
  have hdouble : 2 ^ f.width.toNat = 2 * 2 ^ (f.width.toNat - 1) := by
    exact_mod_cast two_pow_eq_double hwidth
  have hhigh : (f.extract word).getLsbD (f.width.toNat - 1) =
      decide (2 ^ (f.width.toNat - 1) ≤ (f.extract word).toNat) := by
    rw [BitVec.getLsbD, Nat.testBit_eq_decide_div_mod_eq]
    have hquot : (f.extract word).toNat / 2 ^ (f.width.toNat - 1) < 2 :=
      Nat.div_lt_of_lt_mul (by rw [Nat.mul_comm]; omega)
    rw [decide_eq_decide, Nat.mod_eq_of_lt hquot]
    have hle := Nat.le_div_iff_mul_le (x := 1) (y := (f.extract word).toNat)
      (Nat.two_pow_pos (f.width.toNat - 1))
    omega
  rw [toInt_extractSigned hfits, hhigh, eq_comm, Int.bmod_eq_iff (Nat.two_pow_pos f.width.toNat)]
  by_cases hle : 2 ^ (f.width.toNat - 1) ≤ (f.extract word).toNat
  · rw [if_pos (by simpa using hle)]
    refine ⟨by omega, by omega, ⟨-1, by omega⟩⟩
  · rw [if_neg (by simpa using hle)]
    refine ⟨by omega, by omega, ⟨0, by omega⟩⟩

/-- A field that holds an integer cut to its width reads as the signed residue
of that integer. -/
theorem signedResidue_extractSigned {f : Field} (hfits : f.fitsWord = true) {word : Word}
    {value : Int} (hextract : f.extract word = BitVec.ofInt 32 value &&& f.mask) :
    SignedResidue f.width.toNat value (f.extractSigned word).toInt := by
  have hwidth := (fitsWord_iff.1 hfits).1
  rw [signedResidue_iff hwidth, toInt_extractSigned_eq_bmod hfits, hextract,
    toNat_ofInt_and_mask hfits]
  exact_mod_cast Int.emod_bmod value (2 ^ f.width.toNat)

/-- An integer that agrees with a field modulo its size puts the field back. -/
theorem place_ofInt_eq {f : Field} (hfits : f.fitsWord = true) {word : Word} {value : Int}
    (hvalue : ((f.extract word).toNat : Int) = value % 2 ^ f.width.toNat) :
    f.place (BitVec.ofInt 32 value) = f.place (f.extract word) := by
  have hcut : BitVec.ofInt 32 value &&& f.mask = f.extract word := by
    apply BitVec.eq_of_toNat_eq
    exact_mod_cast (toNat_ofInt_and_mask hfits value).trans hvalue.symm
  rw [← place_and_mask, hcut]

/-- The two readings of a field differ by a multiple of its size. -/
theorem toNat_extract_eq_emod {f : Field} (hfits : f.fitsWord = true) (word : Word) :
    ((f.extract word).toNat : Int) = (f.extractSigned word).toInt % 2 ^ f.width.toNat := by
  have hlt := toNat_extract_lt hfits word
  have hmod := Int.bmod_emod (x := (f.extract word).toNat) (m := 2 ^ f.width.toNat)
  rw [← toInt_extractSigned_eq_bmod hfits, ← Int.natCast_emod, Nat.mod_eq_of_lt hlt] at hmod
  exact_mod_cast hmod.symm

end Field

/-! ## The low word of 64-bit numbers -/

/-- The low word of a number kept in 64 bits is the number in 32 bits. -/
theorem lowWord_ofInt (value : Int) : lowWord (Int64.ofInt value) = BitVec.ofInt 32 value := by
  apply BitVec.eq_of_toNat_eq
  rw [lowWord, Int64.toBitVec_ofInt, BitVec.toNat_setWidth, BitVec.toNat_ofInt, BitVec.toNat_ofInt]
  omega

theorem lowWord_eq_ofInt (value : Int64) : lowWord value = BitVec.ofInt 32 value.toInt := by
  rw [← lowWord_ofInt, Int64.ofInt_toInt]

/-- The signed reading of a field puts the field back. -/
theorem Field.place_lowWord_extractSigned {f : Field} (hfits : f.fitsWord = true) (word : Word) :
    f.place (lowWord (f.extractSigned word)) = f.place (f.extract word) := by
  rw [lowWord_eq_ofInt]
  exact place_ofInt_eq hfits (toNat_extract_eq_emod hfits word)

theorem displacement_eq_ofInt (target source : Nat) :
    displacement target source = Int64.ofInt (target - (source + 1)) := by
  rw [displacement, Int64.ofInt_sub, Int64.ofInt_add, Int64.ofInt_eq_ofNat, Int64.ofInt_eq_ofNat]
  rfl

/-- The displacement of a branch in 32 bits does not depend on wraparound in 64
bits. -/
theorem lowWord_displacement (target source : Nat) :
    lowWord (displacement target source) = BitVec.ofInt 32 (target - (source + 1)) := by
  rw [displacement_eq_ofInt, lowWord_ofInt]

/-! ## The laws of a field -/

/-- The laws of a field that fits the word.  It reads back what is placed in it,
modulo its size, and puts back its part of a word; its signed reading of a placed
number is the one residue of that number; and overwriting it sets it and leaves
every field alone that has no bit in common with it. -/
theorem Field.laws_of_fitsWord {f : Field} (hfits : f.fitsWord = true) (word value : Word)
    (number : Int64) :
    (f.extract (f.place value)).toNat = value.toNat % 2 ^ f.width.toNat ∧
    f.place (f.extract word) = word &&& f.maskInPlace ∧
    (∀ residue, SignedResidue f.width.toNat number.toInt residue ↔
      residue = (f.extractSigned (f.place (lowWord number))).toInt) ∧
    (f.extract (f.replace word value)).toNat = value.toNat % 2 ^ f.width.toNat ∧
    (∀ g : Field, f.overlaps g = false → g.extract (f.replace word value) = g.extract word) ∧
    ∀ g : Field, g.fitsWord = true → (f.overlaps g = false ↔ f.Disjoint g) := by
  refine ⟨?_, place_extract f word, ?_, ?_, ?_, ?_⟩
  · rw [extract_place hfits, toNat_and_mask hfits]
  · intro residue
    have hplaced : f.extract (f.place (lowWord number)) =
        BitVec.ofInt 32 number.toInt &&& f.mask := by
      rw [extract_place hfits, lowWord_eq_ofInt]
    have hread := signedResidue_extractSigned hfits hplaced
    have hwidth := (fitsWord_iff.1 hfits).1
    rw [signedResidue_iff hwidth, (signedResidue_iff hwidth).1 hread]
  · rw [extract_replace hfits, toNat_and_mask hfits]
  · intro g hapart
    exact extract_replace_of_overlaps hapart word value
  · intro g hg
    exact overlaps_eq_false_iff hfits hg

/-- The highest bit of the word as a field of its own: of an odd number it keeps
`-1`, and setting it changes nothing in the 31 bits below it. -/
theorem Field.laws_of_fitsWord_highest :
    (Field.mk 31 1).fitsWord = true ∧
      (∀ residue, SignedResidue 1 0x10000000003 residue ↔ residue = -1) ∧
      ((Field.mk 31 1).extract 0xffffffff#32).toNat = 3 % 2 ^ 1 ∧
      (Field.mk 0 31).extract 0xffffffff#32 = (Field.mk 0 31).extract 0x7fffffff#32 := by
  have hfits : (Field.mk 31 1).fitsWord = true := by decide
  obtain ⟨_, _, hsigned, hset, hkept, _⟩ :=
    Field.laws_of_fitsWord hfits 0x7fffffff#32 3#32 0x10000000003
  have hreplace : (Field.mk 31 1).replace 0x7fffffff#32 3#32 = 0xffffffff#32 := by decide
  have hread : (Field.mk 31 1).extractSigned ((Field.mk 31 1).place (lowWord 0x10000000003)) = -1 :=
    by decide
  rw [hread] at hsigned
  rw [hreplace] at hset
  have hbelow := hkept ⟨0, 31⟩ (by decide)
  rw [hreplace] at hbelow
  exact ⟨hfits, hsigned, hset, hbelow⟩

end Asm32
