/-!
# Cutting a list at separators

`cutAt` cuts a list at each element that satisfies a test and drops those
elements.  Two separators in a row have an empty part between them, and a list
without separators is one part.  Parts that are joined by a separator are cut
apart again (`cutAt_intercalate`).
-/

namespace Asm32.Text

/-- The parts of a list between its separators. -/
def cutAt {α : Type} (isSeparator : α → Bool) : List α → List (List α)
  | [] => [[]]
  | a :: rest =>
      if isSeparator a then
        [] :: cutAt isSeparator rest
      else
        match cutAt isSeparator rest with
        | [] => [[a]]
        | part :: parts => (a :: part) :: parts

/-- Cutting at separators is the splitting of lists. -/
theorem cutAt_eq_splitOnP {α : Type} (isSeparator : α → Bool) (as : List α) :
    cutAt isSeparator as = as.splitOnP isSeparator := by
  induction as with
  | nil => rfl
  | cons a rest ih =>
      rw [cutAt, List.splitOnP_cons_eq_if_modifyHead, ih]
      cases hsplit : rest.splitOnP isSeparator with
      | nil => exact absurd hsplit (List.splitOnP_ne_nil _ _)
      | cons part parts => rfl

/-- The parts with the separator between them are the list again. -/
theorem intercalate_cutAt {α : Type} [BEq α] [LawfulBEq α] (separator : α) (as : List α) :
    List.intercalate [separator] (cutAt (· == separator) as) = as := by
  rw [cutAt_eq_splitOnP, ← List.splitOn_eq_splitOnP]
  exact List.intercalate_splitOn separator

/-- What holds of all elements holds of those in the parts. -/
theorem all_of_mem_cutAt {α : Type} {isSeparator test : α → Bool} {as part : List α}
    (h : as.all test = true) (hpart : part ∈ cutAt isSeparator as) : part.all test = true := by
  induction as generalizing part with
  | nil =>
      rw [cutAt, List.mem_singleton] at hpart
      rw [hpart, List.all_nil]
  | cons a rest ih =>
      rw [List.all_cons, Bool.and_eq_true] at h
      rw [cutAt] at hpart
      split at hpart
      · rcases List.mem_cons.1 hpart with rfl | hrest
        · rfl
        · exact ih h.2 hrest
      · split at hpart
        next hcut =>
          rw [List.mem_singleton] at hpart
          rw [hpart, List.all_cons, h.1, List.all_nil, Bool.and_self]
        next first parts hcut =>
          rcases List.mem_cons.1 hpart with rfl | hrest
          · have hfirst : first.all test = true := ih h.2 (by simp [hcut])
            rw [List.all_cons, h.1, hfirst, Bool.and_self]
          · exact ih h.2 (by simp [hcut, hrest])

/-- Parts with a separator between them are cut apart again. -/
theorem cutAt_intercalate {α : Type} [BEq α] [LawfulBEq α] {separator : α} {parts : List (List α)}
    (hparts : ∀ part ∈ parts, separator ∉ part) (hne : parts ≠ []) :
    cutAt (· == separator) (List.intercalate [separator] parts) = parts := by
  rw [cutAt_eq_splitOnP, ← List.splitOn_eq_splitOnP]
  exact List.splitOn_intercalate separator hparts hne

end Asm32.Text
