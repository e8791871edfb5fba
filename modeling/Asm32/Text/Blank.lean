/-!
# Blank characters

The characters that separate words in every text this library reads: source
lines, hex images and feature lists.  The class is the Unicode property
White_Space, 25 characters in ten ranges.  `trim` drops them from both ends.
-/

namespace Asm32.Text

/-- The ranges of White_Space, lowest character first, both ends included. -/
def blankRanges : List (Nat × Nat) :=
  [(0x9, 0xd), (0x20, 0x20), (0x85, 0x85), (0xa0, 0xa0), (0x1680, 0x1680),
   (0x2000, 0x200a), (0x2028, 0x2029), (0x202f, 0x202f), (0x205f, 0x205f),
   (0x3000, 0x3000)]

/-- Whether a code point lies in one of the ranges. -/
def inRanges (ranges : List (Nat × Nat)) (code : Nat) : Bool :=
  ranges.any fun range => range.1 ≤ code && code ≤ range.2

/-- Whether a character is white space. -/
def isBlank (c : Char) : Bool :=
  inRanges blankRanges c.toNat

/-- The text without the blanks at either end. -/
def trim (text : List Char) : List Char :=
  ((text.dropWhile isBlank).reverse.dropWhile isBlank).reverse

theorem dropWhile_isBlank_append {blanks text : List Char}
    (hblanks : ∀ c ∈ blanks, isBlank c = true) (htext : ∀ c ∈ text, isBlank c = false) :
    (blanks ++ text).dropWhile isBlank = text := by
  rw [List.dropWhile_append_of_pos hblanks]
  cases text with
  | nil => rfl
  | cons c rest => rw [List.dropWhile_cons_of_neg (by simp [htext c List.mem_cons_self])]

/-- A text without blanks is what is left when blanks are put around it. -/
theorem trim_append {left text right : List Char} (hleft : ∀ c ∈ left, isBlank c = true)
    (htext : ∀ c ∈ text, isBlank c = false) (hright : ∀ c ∈ right, isBlank c = true) :
    trim (left ++ text ++ right) = text := by
  have hfront : (left ++ text ++ right).dropWhile isBlank =
      if text = [] then [] else text ++ right := by
    cases text with
    | nil =>
        have hblank : ∀ c ∈ left ++ right, isBlank c = true := by
          intro c hc
          exact (List.mem_append.1 hc).elim (hleft c) (hright c)
        have hdrop : (left ++ right ++ []).dropWhile isBlank = [] :=
          dropWhile_isBlank_append hblank (by simp)
        simpa using hdrop
    | cons c rest =>
        rw [List.append_assoc, List.dropWhile_append_of_pos hleft, List.cons_append,
          List.dropWhile_cons_of_neg (by simp [htext c List.mem_cons_self])]
        rfl
  rw [trim, hfront]
  split
  next hnil => simp [hnil]
  next =>
    rw [List.reverse_append, dropWhile_isBlank_append (by simpa using hright) (by simpa using htext),
      List.reverse_reverse]

theorem trim_eq_self {text : List Char} (htext : ∀ c ∈ text, isBlank c = false) :
    trim text = text := by
  have htrim : trim ([] ++ text ++ []) = text := trim_append (by simp) htext (by simp)
  rwa [List.nil_append, List.append_nil] at htrim

end Asm32.Text
