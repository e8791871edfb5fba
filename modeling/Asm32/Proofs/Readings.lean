import Asm32.Proofs.Joining

/-!
# What assembling takes from a text

A line counts only through what it is read as, so `lineReadings` is all that
`assemble` takes from a text (`assemble_congr`).  Blank lines count only through
the numbers of the lines below them:

* a line feed at the end of a text changes nothing, failures included
  (`assemble_concat_newline`);
* a blank line anywhere changes nothing for a text that assembles
  (`assemble_insert_blank`).
-/

namespace Asm32

/-- What the lines of a text are read as; a line outside the syntax is read as
nothing. -/
def lineReadings (isa : InstructionSet) (text : List Char) : List (Option Line) :=
  (Text.lines text).map (Line.parse? isa)

/-- A line without a label and without a statement. -/
def Line.blank : Line := ⟨none, none⟩

/-! ## Names that are read -/

theorem Line.isIdentifier_splitLabel {tokens : List Token} {name : String}
    (h : (splitLabel tokens).1 = some name) : isIdentifier name = true := by
  unfold splitLabel at h
  split at h
  · split at h
    next hname =>
      cases h
      exact hname
    next => cases h
  · cases h

theorem Statement.isIdentifier_mnemonic {indexed : Bool} {tokens : List Token} {s : Statement}
    (h : Statement.ofTokens? indexed tokens = some (some s)) : isIdentifier s.mnemonic = true := by
  unfold ofTokens? at h
  split at h
  · cases h
  · split at h
    next hname =>
      obtain ⟨_, _, hs⟩ := Option.map_eq_some_iff.1 h
      cases hs
      exact hname
    next => cases h
  · cases h

/-- Labels and mnemonics that are read are names. -/
theorem Line.names_of_parse? {isa : InstructionSet} {text : List Char} {line : Line}
    (h : Line.parse? isa text = some line) :
    (∀ name, line.label = some name → isIdentifier name = true) ∧
      ∀ s, line.statement = some s → isIdentifier s.mnemonic = true := by
  obtain ⟨tokens, _, htokens⟩ := Option.bind_eq_some_iff.1 h
  obtain ⟨statement, hstatement, rfl⟩ := Option.map_eq_some_iff.1 htokens
  refine ⟨fun name hname => isIdentifier_splitLabel hname, fun s hs => ?_⟩
  subst hs
  exact Statement.isIdentifier_mnemonic hstatement

namespace Code

variable {isa : InstructionSet} {texts : List (List Char)}

theorem isIdentifier_of_mem_labels {name : String} (h : name ∈ (ofTexts isa texts).labels) :
    isIdentifier name = true := by
  obtain ⟨line, hline, hname⟩ := List.mem_filterMap.1 h
  obtain ⟨text, _, hparse⟩ := List.mem_filterMap.1 hline
  exact (Line.names_of_parse? hparse).1 name hname

theorem isIdentifier_of_mem_statements {s : Statement} (h : s ∈ (ofTexts isa texts).statements) :
    isIdentifier s.mnemonic = true := by
  obtain ⟨line, hline, hs⟩ := List.mem_filterMap.1 h
  obtain ⟨text, _, hparse⟩ := List.mem_filterMap.1 hline
  exact (Line.names_of_parse? hparse).2 s hs

end Code

/-! ## The readings of a text -/

theorem lineReadings_append (isa : InstructionSet) {before : List Char}
    (hbefore : Text.StartsLine before) (after : List Char) :
    lineReadings isa (before ++ after) = lineReadings isa before ++ lineReadings isa after := by
  rw [lineReadings, Text.lines_append hbefore, List.map_append]
  rfl

/-- A carriage return before the line feed makes no difference to a line. -/
theorem parse?_dropBreak (isa : InstructionSet) (line : List Char) :
    Line.parse? isa (Text.dropBreak (line ++ ['\n'])) = Line.parse? isa line := by
  by_cases hreturn : line.getLast? = some '\r'
  · obtain ⟨text, rfl⟩ := List.getLast?_eq_some_iff.1 hreturn
    have hdrop : Text.dropBreak (text ++ ['\r'] ++ ['\n']) = text := by simp [Text.dropBreak]
    rw [hdrop, Line.parse?_concat_blank isa (by decide)]
  · rw [Text.dropBreak_concat hreturn]

/-- The line up to the first line feed is read first. -/
theorem lineReadings_line (isa : InstructionSet) {line : List Char} (hline : '\n' ∉ line)
    (rest : List Char) :
    lineReadings isa (line ++ '\n' :: rest) = Line.parse? isa line :: lineReadings isa rest := by
  rw [lineReadings, Text.lines, Text.pieces_append_newline hline, List.map_cons, List.map_cons,
    parse?_dropBreak]
  rfl

theorem ofSource_eq (isa : InstructionSet) (source : String) :
    Code.ofSource isa source = (lineReadings isa source.toList).filterMap id :=
  Code.ofTexts_eq isa _

/-- Texts with the same readings assemble alike. -/
theorem assemble_congr {isa : InstructionSet} {source other : String}
    (h : lineReadings isa other.toList = lineReadings isa source.toList) :
    assemble isa other = assemble isa source := by
  rw [assemble_eq, assemble_eq, scanFault?_congr h, ofSource_eq, ofSource_eq, h]

/-! ## Programs that differ in blank lines -/

namespace Code

/-- The programs have the same labels and statements, with the same addresses. -/
structure Alike (p q : Code) : Prop where
  labels : p.labels = q.labels
  statements : p.statements = q.statements
  address : ∀ name, p.address? name = q.address? name

theorem alike_insert_blank (p q : Code) : Alike (p ++ Line.blank :: q) (p ++ q) where
  labels := by simp [labels, Line.blank]
  statements := by simp [statements, Line.blank]
  address := by
    intro name
    have hnone : address? [Line.blank] name = none := by
      rw [address?_eq_none_iff]
      simp [labels, Line.blank]
    have hblank : address? (Line.blank :: q) name = q.address? name := by
      rw [← List.singleton_append, address?_append, hnone]
      simp [statements, Line.blank]
    rw [address?_append, address?_append, hblank]

variable {isa : InstructionSet} {p q : Code}

theorem Alike.undefined? (h : Alike p q) : p.undefined? isa = q.undefined? isa := by
  unfold Code.undefined?
  rw [h.statements]
  simp only [h.address]

theorem Alike.patchedWord (h : Alike p q) : p.patchedWord isa = q.patchedWord isa := by
  funext k s
  unfold Code.patchedWord
  simp only [h.address]

theorem Alike.links (h : Alike p q) (hq : q.Links isa) : p.Links isa where
  labels := h.labels ▸ hq.labels
  encodes := h.statements ▸ hq.encodes
  defined := h.undefined?.trans hq.defined

end Code

/-- A blank line at the end changes nothing, failures included. -/
theorem assemble_concat_blank {isa : InstructionSet} {source other : String} {text : List Char}
    (hblank : Line.parse? isa text = some .blank)
    (h : Text.lines other.toList = Text.lines source.toList ++ [text]) :
    assemble isa other = assemble isa source := by
  have hcode : Code.ofSource isa other = Code.ofSource isa source ++ [Line.blank] := by
    simp [Code.ofSource, Code.ofTexts, h, hblank]
  have halike : Code.Alike (Code.ofSource isa other) (Code.ofSource isa source) := by
    have hinsert := Code.alike_insert_blank (Code.ofSource isa source) []
    rwa [List.append_nil, ← hcode] at hinsert
  have hfault : scanFault? isa (Text.lines other.toList) =
      scanFault? isa (Text.lines source.toList) := by
    rw [h, scanFault?_concat, lineFault?, hblank]
    simp [Line.blank]
  rw [assemble_eq, assemble_eq, hfault, halike.undefined?, halike.patchedWord, halike.statements]

/-- A line feed at the end of a text changes nothing. -/
theorem assemble_concat_newline (isa : InstructionSet) (text : List Char) :
    assemble isa (String.ofList (text ++ ['\n'])) = assemble isa (String.ofList text) := by
  rcases Text.lines_concat_newline text with hlines | hlines | ⟨above, last, htext, hlines⟩
  · have hblank : Line.parse? isa [] = some .blank := rfl
    exact assemble_concat_blank hblank (by simpa using hlines)
  · exact assemble_congr (by simp [lineReadings, hlines])
  · apply assemble_congr
    simp [lineReadings, hlines, htext, Line.parse?_concat_blank isa (c := '\r') (by decide)]

/-- A text that assembles does so with a blank line in any place. -/
theorem assemble_insert_blank {isa : InstructionSet} {source other : String}
    {above below : List (Option Line)} {image : Image}
    (hsource : lineReadings isa source.toList = above ++ below)
    (hother : lineReadings isa other.toList = above ++ some .blank :: below)
    (hassemble : assemble isa source = .ok image) : assemble isa other = .ok image := by
  obtain ⟨hread, hlinks⟩ := links_of_assemble hassemble
  -- No line is outside the syntax, so the readings are those of a program.
  have hreadings : lineReadings isa source.toList = (Code.ofSource isa source).map some := hread
  rw [hsource, List.append_eq_map_iff] at hreadings
  obtain ⟨p, q, hcode, rfl, rfl⟩ := hreadings
  have halike := Code.alike_insert_blank p q
  have hother' : Code.ReadFrom isa (p ++ Line.blank :: q) (Text.lines other.toList) := by
    rw [Code.ReadFrom, List.map_append, List.map_cons]
    exact hother
  rw [hcode] at hread hlinks
  rw [← hassemble, assemble_of_links hread hlinks, assemble_of_links hother' (halike.links hlinks),
    halike.patchedWord, halike.statements]

end Asm32
