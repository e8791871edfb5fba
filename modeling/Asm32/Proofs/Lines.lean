import Asm32.Text.Lines

/-!
# Texts made of lines

`Text.lines` gives the lines back that a text was made of, as long as no line
has a line feed in it or a carriage return at its end, which would count as
part of the line break.

* `pieces_append_newline` and `dropBreak_concat` take the first line off a text.
* `lines_flatMap_newline` is the round trip for a list of lines with a line break
  behind each, and `lines_intercalate_newline` for one with line breaks between
  them.
* `lines_append_newline` cuts any text at any of its line feeds, and
  `lines_concat_newline` says what one more line feed does to the end of a text.
-/

namespace Asm32.Text

/-! ## The number of lines -/

theorem length_consPiece_le (c : Char) (ps : List (List Char)) :
    (consPiece c ps).length ≤ ps.length + 1 := by
  unfold consPiece
  split
  · simp
  · cases ps <;> simp

/-- A text has no more lines than characters. -/
theorem length_lines_le (text : List Char) : (lines text).length ≤ text.length := by
  rw [lines, List.length_map]
  induction text with
  | nil => simp [pieces]
  | cons c rest ih => exact Nat.le_trans (length_consPiece_le c _) (Nat.succ_le_succ ih)

/-! ## One line after another -/

/-- The text up to its first line feed is its first piece. -/
theorem pieces_append_newline {line : List Char} (hline : '\n' ∉ line) (text : List Char) :
    pieces (line ++ '\n' :: text) = (line ++ ['\n']) :: pieces text := by
  induction line with
  | nil => rfl
  | cons c rest ih =>
      rw [List.mem_cons, not_or] at hline
      have hrest : pieces (c :: rest ++ '\n' :: text) =
          consPiece c (pieces (rest ++ '\n' :: text)) := rfl
      rw [hrest, ih hline.2, consPiece, if_neg (Ne.symm hline.1)]
      rfl

/-- A line feed is dropped from its piece, and nothing else, where no carriage
return stands before it. -/
theorem dropBreak_concat {line : List Char} (hline : line.getLast? ≠ some '\r') :
    dropBreak (line ++ ['\n']) = line := by
  rw [dropBreak, List.reverse_concat]
  cases hreverse : line.reverse with
  | nil => simpa using hreverse.symm
  | cons c rest =>
      have hlast : line.getLast? = some c := by
        rw [← List.head?_reverse, hreverse, List.head?_cons]
      have hc : c ≠ '\r' := fun h => hline (h ▸ hlast)
      have hback : line = (c :: rest).reverse := by rw [← hreverse, List.reverse_reverse]
      split
      next heq =>
        simp only [List.cons.injEq] at heq
        exact absurd heq.2.1 hc
      next heq =>
        simp only [List.cons.injEq, true_and] at heq
        rw [hback, heq]
      next hne => exact absurd rfl (hne _)

/-- A text is read back line by line when each line ends in a line break. -/
theorem lines_flatMap_newline {texts : List (List Char)}
    (hnewline : ∀ text ∈ texts, '\n' ∉ text)
    (hreturn : ∀ text ∈ texts, text.getLast? ≠ some '\r') :
    lines (texts.flatMap fun text => text ++ ['\n']) = texts := by
  induction texts with
  | nil => rfl
  | cons text rest ih =>
      rw [List.forall_mem_cons] at hnewline hreturn
      rw [List.flatMap_cons, List.append_assoc, List.singleton_append, lines,
        pieces_append_newline hnewline.1, List.map_cons, dropBreak_concat hreturn.1]
      exact congrArg (text :: ·) (ih hnewline.2 hreturn.2)

/-! ## The last line -/

/-- A text without a line feed is one piece, unless it is empty. -/
theorem pieces_of_not_mem {line : List Char} (hline : '\n' ∉ line) (hne : line ≠ []) :
    pieces line = [line] := by
  induction line with
  | nil => exact absurd rfl hne
  | cons c rest ih =>
      rw [List.mem_cons, not_or] at hline
      have hcons : pieces (c :: rest) = consPiece c (pieces rest) := rfl
      cases rest with
      | nil => simp [pieces, consPiece, Ne.symm hline.1]
      | cons next rest =>
          rw [hcons, ih hline.2 (List.cons_ne_nil next rest), consPiece, if_neg (Ne.symm hline.1)]

/-- A piece that does not end in a line feed is a line as it is. -/
theorem dropBreak_of_getLast?_ne {piece : List Char} (hlast : piece.getLast? ≠ some '\n') :
    dropBreak piece = piece := by
  rw [← List.head?_reverse] at hlast
  unfold dropBreak
  split
  next heq => simp [heq] at hlast
  next heq => simp [heq] at hlast
  next => rfl

/-- A text is read back line by line when line breaks stand between its lines.
An empty line at the end would be lost. -/
theorem lines_intercalate_newline {texts : List (List Char)}
    (hnewline : ∀ text ∈ texts, '\n' ∉ text)
    (hreturn : ∀ text ∈ texts, text.getLast? ≠ some '\r') (hne : ∀ text ∈ texts, text ≠ []) :
    lines (List.intercalate ['\n'] texts) = texts := by
  induction texts with
  | nil => rfl
  | cons text rest ih =>
      rw [List.forall_mem_cons] at hnewline hreturn hne
      cases rest with
      | nil =>
          have hlast : text.getLast? ≠ some '\n' := fun h =>
            hnewline.1 (List.mem_of_getLast? h)
          rw [List.intercalate_singleton, lines, pieces_of_not_mem hnewline.1 hne.1,
            List.map_singleton, dropBreak_of_getLast?_ne hlast]
      | cons next rest =>
          rw [List.intercalate_cons_cons, List.append_assoc, List.singleton_append, lines,
            pieces_append_newline hnewline.1, List.map_cons, dropBreak_concat hreturn.1]
          exact congrArg (text :: ·) (ih hnewline.2 hreturn.2 hne.2)

/-! ## Two texts with a line feed between them -/

theorem consPiece_append (c : Char) {ps : List (List Char)} (hne : ps ≠ [])
    (qs : List (List Char)) : consPiece c (ps ++ qs) = consPiece c ps ++ qs := by
  cases ps with
  | nil => exact absurd rfl hne
  | cons piece rest =>
      by_cases hc : c = '\n' <;> simp [consPiece, hc]

theorem pieces_ne_nil {text : List Char} (hne : text ≠ []) : pieces text ≠ [] := by
  intro hnil
  have hflatten := flatten_pieces text
  rw [hnil, List.flatten_nil] at hflatten
  exact hne hflatten.symm

/-- A line feed ends a piece, whatever stands before it. -/
theorem pieces_append (text rest : List Char) :
    pieces (text ++ '\n' :: rest) = pieces (text ++ ['\n']) ++ pieces rest := by
  induction text with
  | nil => rfl
  | cons c text ih =>
      have hne : pieces (text ++ ['\n']) ≠ [] := pieces_ne_nil (by simp)
      calc pieces (c :: text ++ '\n' :: rest)
          = consPiece c (pieces (text ++ '\n' :: rest)) := rfl
        _ = consPiece c (pieces (text ++ ['\n'])) ++ pieces rest := by
            rw [ih, consPiece_append c hne]
        _ = pieces (c :: text ++ ['\n']) ++ pieces rest := rfl

theorem lines_append_newline (text rest : List Char) :
    lines (text ++ '\n' :: rest) = lines (text ++ ['\n']) ++ lines rest := by
  rw [lines, pieces_append, List.map_append]
  rfl

/-- Whether a line starts behind a text: the text is empty or ends in a line
feed. -/
def StartsLine (before : List Char) : Prop :=
  before = [] ∨ before.getLast? = some '\n'

/-- A text is cut between two of its lines. -/
theorem lines_append {before : List Char} (hbefore : StartsLine before) (after : List Char) :
    lines (before ++ after) = lines before ++ lines after := by
  rcases hbefore with rfl | hlast
  · rfl
  · obtain ⟨text, rfl⟩ := List.getLast?_eq_some_iff.1 hlast
    rw [List.append_assoc, List.singleton_append, lines_append_newline]

/-- One more line feed is a piece of its own behind a complete line, and
completes the last piece otherwise. -/
theorem pieces_concat_newline (text : List Char) :
    pieces (text ++ ['\n']) = pieces text ++ [['\n']] ∨
      ∃ above last, last.getLast? ≠ some '\n' ∧ pieces text = above ++ [last] ∧
        pieces (text ++ ['\n']) = above ++ [last ++ ['\n']] := by
  induction text with
  | nil => exact .inl rfl
  | cons c text ih =>
      have hlong : pieces (c :: text ++ ['\n']) = consPiece c (pieces (text ++ ['\n'])) := rfl
      have hshort : pieces (c :: text) = consPiece c (pieces text) := rfl
      rw [hlong, hshort]
      rcases ih with hsplit | ⟨above, last, hlast, htext, hsplit⟩
      · rw [hsplit]
        cases hpieces : pieces text with
        | cons piece rest => exact .inl (consPiece_append c (List.cons_ne_nil piece rest) _)
        | nil =>
            by_cases hc : c = '\n'
            · exact .inl (by simp [consPiece, hc])
            · exact .inr ⟨[], [c], by simpa using hc, by simp [consPiece, hc],
                by simp [consPiece, hc]⟩
      · right
        rw [hsplit, htext]
        cases above with
        | cons piece rest =>
            have hne : piece :: rest ≠ [] := List.cons_ne_nil piece rest
            exact ⟨_, last, hlast, consPiece_append c hne _, consPiece_append c hne _⟩
        | nil =>
            by_cases hc : c = '\n'
            · exact ⟨[[c]], last, hlast, by simp [consPiece, hc], by simp [consPiece, hc]⟩
            · have hlast' : (c :: last).getLast? ≠ some '\n' := by
                cases last with
                | nil => simpa using hc
                | cons d rest => simpa using hlast
              exact ⟨[], c :: last, hlast', by simp [consPiece, hc], by simp [consPiece, hc]⟩

/-- One more line feed at the end of a text adds an empty line behind a complete
line.  Otherwise it completes the last line, and takes a carriage return at its
end away. -/
theorem lines_concat_newline (text : List Char) :
    lines (text ++ ['\n']) = lines text ++ [[]] ∨
      lines (text ++ ['\n']) = lines text ∨
      ∃ above last, lines text = above ++ [last ++ ['\r']] ∧
        lines (text ++ ['\n']) = above ++ [last] := by
  unfold lines
  rcases pieces_concat_newline text with hsplit | ⟨above, last, hlast, htext, hsplit⟩
  · left
    rw [hsplit, List.map_append]
    rfl
  · right
    rw [hsplit, htext, List.map_append, List.map_append, List.map_singleton, List.map_singleton,
      dropBreak_of_getLast?_ne hlast]
    by_cases hreturn : last.getLast? = some '\r'
    · right
      obtain ⟨line, rfl⟩ := List.getLast?_eq_some_iff.1 hreturn
      refine ⟨above.map dropBreak, line, rfl, ?_⟩
      simp [dropBreak]
    · left
      rw [dropBreak_concat hreturn]

end Asm32.Text
