/-!
# Lines of a text

A line ends at a line feed, and one carriage return right before that line feed
belongs to the line break.  The text after the last line feed is a line too
when it is not empty.  A carriage return anywhere else is part of its line.

* `pieces` cuts the text after each line feed and loses nothing
  (`flatten_pieces`).
* `lines` drops the line break from each piece.
-/

namespace Asm32.Text

/-- Put one more character in front of a text that is already cut into pieces.
A line feed closes a piece of its own; any other character joins the first
piece. -/
def consPiece (c : Char) (pieces : List (List Char)) : List (List Char) :=
  if c = '\n' then
    [c] :: pieces
  else
    match pieces with
    | [] => [[c]]
    | piece :: rest => (c :: piece) :: rest

/-- The text cut after each line feed. -/
def pieces (text : List Char) : List (List Char) :=
  text.foldr consPiece []

/-- A piece without its line break. -/
def dropBreak (piece : List Char) : List Char :=
  match piece.reverse with
  | '\n' :: '\r' :: rest => rest.reverse
  | '\n' :: rest => rest.reverse
  | _ => piece

/-- The lines of a text, without their line breaks. -/
def lines (text : List Char) : List (List Char) :=
  (pieces text).map dropBreak

theorem flatten_consPiece (c : Char) (ps : List (List Char)) :
    (consPiece c ps).flatten = c :: ps.flatten := by
  unfold consPiece
  split
  · simp
  · cases ps <;> simp

/-- Cutting a text into pieces loses no character. -/
theorem flatten_pieces (text : List Char) : (pieces text).flatten = text := by
  induction text with
  | nil => rfl
  | cons c rest ih =>
      rw [pieces, List.foldr_cons, flatten_consPiece]
      exact congrArg (c :: ·) ih

end Asm32.Text
