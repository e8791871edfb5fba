import Asm32.Assembly.Error

/-!
# Memory images

The words of a program and the size of the memory they go into.  An image never
has more words than its capacity, and the rest of the memory is zero.
-/

namespace Asm32

/-- A program in a memory of `capacity` words. -/
structure Image where
  words : List Word
  capacity : UInt64
  /-- The program fits the memory. -/
  fits : words.length ≤ capacity.toNat
deriving DecidableEq, Repr

namespace Image

/-- Put words into a memory of a given size. -/
def ofWords (words : List Word) (capacity : UInt64) : Except AssemblyError Image :=
  if h : words.length ≤ capacity.toNat then
    .ok ⟨words, capacity, h⟩
  else
    .error (.programTooLarge words.length capacity.toNat)

/-- Words make an image exactly when they fit, and then the image has them
all. -/
theorem ofWords_eq_ok_iff {words : List Word} {capacity : UInt64} {image : Image} :
    ofWords words capacity = .ok image ↔ image.words = words ∧ image.capacity = capacity := by
  unfold ofWords
  split
  next h =>
    obtain ⟨_, _, _⟩ := image
    simp [eq_comm]
  next h =>
    simp only [reduceCtorEq, false_iff]
    rintro ⟨rfl, rfl⟩
    exact h image.fits

/-- The first `count` words of the memory, or all of them if it has fewer. -/
def leading (image : Image) (count : Nat) : List Word :=
  (image.words ++
    List.replicate (min count image.capacity.toNat - image.words.length) 0).take count

/-- All words of the memory: the program and zeros behind it. -/
def padded (image : Image) : List Word :=
  image.leading image.capacity.toNat

/-- The program comes first and zeros fill the memory. -/
theorem padded_eq (image : Image) :
    image.padded =
      image.words ++ List.replicate (image.capacity.toNat - image.words.length) 0 := by
  have hfits := image.fits
  rw [padded, leading, Nat.min_self, List.take_of_length_le]
  simp only [List.length_append, List.length_replicate]
  omega

@[simp] theorem length_padded (image : Image) : image.padded.length = image.capacity.toNat := by
  have hfits := image.fits
  simp only [padded_eq, List.length_append, List.length_replicate]
  omega

end Image

/-- The number of words up to the last that is not zero. -/
def usedLength (words : List Word) : Nat :=
  (words.reverse.dropWhile (· == 0)).length

/-- The words without the zeros at the end. -/
def usedWords (words : List Word) : List Word :=
  words.take (usedLength words)

end Asm32
