/-!
# Bit fields

A word is 32 bits, and an instruction packs its operands into fields, each a
run of bits inside the word.  `Field.place` moves a value into position and
`Field.extract` reads it back; `Field.extractSigned` reads it as a two's
complement number.  `Field.replace` overwrites one field and leaves the other
bits as they are.

Where a field lies is given by two 32-bit numbers, whose sum need not be one.
`Field.end?` is the sum if it is, and a field without an end is neither inside
the word nor outside (`Field.fitsWord?`).

The lemmas say what each operation does to a single bit of the word:
`getLsbD_mask`, `getLsbD_maskInPlace`, `getLsbD_place`, `getLsbD_extract` and
`getLsbD_replace`.
-/

namespace Asm32

/-- A machine word. -/
abbrev Word := BitVec 32

/-- The number of bits in a word. -/
def wordBits : Nat := 32

/-- A run of `width` bits, the lowest of which is bit `shift`. -/
structure Field where
  shift : UInt32
  width : UInt32
deriving DecidableEq, Repr

namespace Field

/-- The lowest `width` bits; all bits of the word if the field is wider. -/
def mask (f : Field) : Word :=
  BitVec.ofNat 32 ((1 <<< min f.width.toNat wordBits) - 1)

/-- The bits of the field at their position in the word. -/
def maskInPlace (f : Field) : Word :=
  f.mask <<< f.shift.toNat

/-- Cut `value` down to the width of the field and move it into position. -/
def place (f : Field) (value : Word) : Word :=
  (value &&& f.mask) <<< f.shift.toNat

/-- The bits of the field, moved to the low end. -/
def extract (f : Field) (word : Word) : Word :=
  (word >>> f.shift.toNat) &&& f.mask

/-- The weight of the highest bit of the field. -/
def signBit (f : Field) : Int64 :=
  1 <<< Int64.ofNat (f.width - 1).toNat

/-- The field read as a two's complement number, in 64 bits: the highest bit is
flipped and then taken off, so that it counts negative. -/
def extractSigned (f : Field) (word : Word) : Int64 :=
  (Int64.ofNat (f.extract word).toNat ^^^ f.signBit) - f.signBit

/-- Write `value` into the field and keep every other bit. -/
def replace (f : Field) (word value : Word) : Word :=
  (word &&& ~~~f.maskInPlace) ||| f.place value

/-- The largest number the field holds. -/
def maxValue (f : Field) : Word :=
  f.mask

/-- The bit behind the field, or nothing if the sum leaves the 32-bit numbers. -/
def end? (f : Field) : Option UInt32 :=
  if f.shift.toNat + f.width.toNat < UInt32.size then some (f.shift + f.width) else none

/-- Whether the field has a bit at all and ends inside the word.  An empty field
is refused without a look at its end; for any other there is no answer if there
is no end. -/
def fitsWord? (f : Field) : Option Bool :=
  if f.width = 0 then some false else f.end?.map fun bit => bit.toNat ≤ wordBits

/-- Whether two fields share a bit of the word. -/
def overlaps (f g : Field) : Bool :=
  f.maskInPlace &&& g.maskInPlace != 0

/-! ## Single bits -/

@[simp] theorem getLsbD_mask (f : Field) (i : Nat) :
    f.mask.getLsbD i = (decide (i < wordBits) && decide (i < f.width.toNat)) := by
  rw [mask, BitVec.getLsbD_ofNat, Nat.one_shiftLeft, Nat.testBit_two_pow_sub_one,
    Bool.eq_iff_iff]
  simp only [Bool.and_eq_true, decide_eq_true_eq]
  simp only [wordBits]
  omega

/-- The bits of a field in place are those from `shift` up to its end. -/
@[simp] theorem getLsbD_maskInPlace (f : Field) (i : Nat) :
    f.maskInPlace.getLsbD i =
      (decide (i < wordBits) &&
        (decide (f.shift.toNat ≤ i) && decide (i < f.shift.toNat + f.width.toNat))) := by
  rw [maskInPlace, BitVec.getLsbD_shiftLeft, getLsbD_mask, Bool.eq_iff_iff]
  simp only [Bool.and_eq_true, Bool.not_eq_true', decide_eq_true_eq, decide_eq_false_iff_not]
  simp only [wordBits]
  omega

/-- A value goes to the bits of its field and to no other. -/
@[simp] theorem getLsbD_place (f : Field) (value : Word) (i : Nat) :
    (f.place value).getLsbD i = (f.maskInPlace.getLsbD i && value.getLsbD (i - f.shift.toNat)) := by
  rw [place, maskInPlace, BitVec.getLsbD_shiftLeft, BitVec.getLsbD_shiftLeft, BitVec.getLsbD_and,
    Bool.and_comm (value.getLsbD _), ← Bool.and_assoc]

@[simp] theorem getLsbD_extract (f : Field) (word : Word) (i : Nat) :
    (f.extract word).getLsbD i =
      (decide (i < f.width.toNat) && word.getLsbD (f.shift.toNat + i)) := by
  rw [extract, BitVec.getLsbD_and, BitVec.getLsbD_ushiftRight, getLsbD_mask]
  by_cases hword : i < wordBits
  · simp [hword, Bool.and_comm]
  · have hout : word.getLsbD (f.shift.toNat + i) = false := by
      apply BitVec.getLsbD_of_ge
      simp only [wordBits] at hword
      omega
    simp [hout]

/-- Replacing a field keeps the bits outside it. -/
@[simp] theorem getLsbD_replace (f : Field) (word value : Word) (i : Nat) :
    (f.replace word value).getLsbD i =
      if f.maskInPlace.getLsbD i then value.getLsbD (i - f.shift.toNat) else word.getLsbD i := by
  rw [replace, BitVec.getLsbD_or, BitVec.getLsbD_and, BitVec.getLsbD_not, getLsbD_place]
  cases hin : f.maskInPlace.getLsbD i with
  | true => simp
  | false =>
      by_cases hword : i < 32
      · simp [hword]
      · simp [hword, BitVec.getLsbD_of_ge word i (by omega)]

end Field

/-- The low 32 bits of a 64-bit number. -/
def lowWord (value : Int64) : Word :=
  value.toBitVec.setWidth 32

end Asm32
