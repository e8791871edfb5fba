import Asm32.Proofs.LineRoundTrip
import Asm32.Proofs.Lines
import Asm32.Proofs.Linking

/-!
# Programs that are written and assembled

`Code.render` writes a program as a source text.  If its lines can be written,
they are the lines of the text (`lines_render`) and read back as the program
(`readFrom_render`).  `assemble_of_lines` then gives the words that the program
assembles to, from `Code.render` or from any other text with the same lines.
-/

namespace Asm32

namespace Code

/-- The source text of a program, with a line break behind each line. -/
def render (p : Code) : String :=
  String.join (p.map fun line => line.render ++ "\n")

variable {isa : InstructionSet} {p : Code}

/-- The lines of the text are the lines of the program. -/
theorem lines_render (hwritable : ∀ line ∈ p, line.isWritable isa.indexed = true) :
    Text.lines p.render.toList = p.map fun line => line.render.toList := by
  have htext : p.render.toList =
      (p.map fun line => line.render.toList).flatMap fun text => text ++ ['\n'] := by
    simp [render, String.toList_join, List.flatMap_map]
  rw [htext]
  apply Text.lines_flatMap_newline
  · intro text htext
    obtain ⟨line, hline, rfl⟩ := List.mem_map.1 htext
    exact Line.not_mem_render (hwritable line hline) (by decide) (by decide)
  · intro text htext hlast
    obtain ⟨line, hline, rfl⟩ := List.mem_map.1 htext
    exact Line.not_mem_render (c := '\r') (hwritable line hline) (by decide) (by decide)
      (List.mem_of_getLast? hlast)

/-- A program is read back from the texts of its lines. -/
theorem readFrom_render (hcomment : InstructionSet.isCommentMarker isa.comment = true)
    (hwritable : ∀ line ∈ p, line.isWritable isa.indexed = true) :
    p.ReadFrom isa (p.map fun line => line.render.toList) := by
  rw [ReadFrom, List.map_map]
  apply List.map_congr_left
  intro line hline
  exact Line.parse?_render hcomment (hwritable line hline)

end Code

/-- A source with the lines of a program that links assembles to the words of the
program. -/
theorem assemble_of_lines {isa : InstructionSet} {p : Code} {source : String}
    (hlines : Text.lines source.toList = p.map fun line => line.render.toList)
    (hcomment : InstructionSet.isCommentMarker isa.comment = true)
    (hwritable : ∀ line ∈ p, line.isWritable isa.indexed = true) (hlinks : p.Links isa) :
    assemble isa source =
      Image.ofWords (p.statements.mapIdx (p.patchedWord isa)) isa.memoryWords := by
  apply assemble_of_links _ hlinks
  rw [hlines]
  exact Code.readFrom_render hcomment hwritable

end Asm32
