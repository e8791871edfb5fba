import Asm32.Proofs.Readings
import Mathlib.Logic.Relation

/-!
# Comments, blanks and line breaks

`Text.Edit` are the changes to a source that leave the program alone: a comment
goes or is replaced, runs of blanks on a line become single spaces, or all line
breaks get a carriage return.  `Text.Insertion` puts in a line that is blank or
holds only a comment, which moves the numbers of the lines below it.

* `scan_append_comment` and `scan_squeeze` follow the tokens of one line through
  an edit.  The first needs a comment marker that is no word character, the
  second one that is no blank; a validated set has such a marker.
* `assemble_edit` is one edit: every line of the text is read as before.  An edit
  may empty the last line, which then is no line any more, so the texts are
  compared with a line feed behind them.
* `assemble_insertion` is one insertion into a text that assembles.
* `assemble_of_edits` takes any number of them.
-/

namespace Asm32

/-! ## Edits -/

namespace Text

/-- Whether a line ends in front of a text: the text is empty or starts with a
line break. -/
def EndsLine (after : List Char) : Prop :=
  after = [] ∨ (∃ rest, after = '\n' :: rest) ∨ ∃ rest, after = '\r' :: '\n' :: rest

/-- The text `before ++ line ++ after` has the line `line`.  A carriage return in
front of a line feed may count as part of the line or of the line break. -/
structure IsLine (before line after : List Char) : Prop where
  start : StartsLine before
  noFeed : '\n' ∉ line
  stop : EndsLine after

/-- A line with one space for each run of blanks: only the last blank of a run is
kept, as a space. -/
def squeeze : List Char → List Char
  | [] => []
  | c :: rest =>
      if isBlank c then
        if rest.head?.any isBlank then squeeze rest else ' ' :: squeeze rest
      else
        c :: squeeze rest

/-- A text with a carriage return in front of every line feed. -/
def addReturns (text : List Char) : List Char :=
  text.flatMap fun c => if c = '\n' then ['\r', '\n'] else [c]

/-- Whether a line is blank up to its first comment marker, or to its end if it has
none. -/
def isFiller (comment : Char) (line : List Char) : Bool :=
  !line.contains '\n' && (line.takeWhile (· != comment)).all isBlank

/-- One change to the comments, the blanks or the line breaks of a text. -/
inductive Edit (comment : Char) : List Char → List Char → Prop where
  /-- A line loses everything from a comment marker on. -/
  | dropComment {before head tail after}
      (hline : IsLine before (head ++ comment :: tail) after) :
      Edit comment (before ++ (head ++ comment :: tail) ++ after) (before ++ head ++ after)
  /-- The text behind a comment marker is replaced. -/
  | changeComment {before head tail after} (other)
      (hline : IsLine before (head ++ comment :: tail) after) (hother : '\n' ∉ other) :
      Edit comment (before ++ (head ++ comment :: tail) ++ after)
        (before ++ (head ++ comment :: other) ++ after)
  /-- Every run of blanks on a line becomes one space. -/
  | squeeze {before line after} (hline : IsLine before line after) :
      Edit comment (before ++ line ++ after) (before ++ squeeze line ++ after)
  /-- Every line feed gets a carriage return. -/
  | addReturns (text) : Edit comment text (addReturns text)

/-- One more line that is blank or holds only a comment. -/
inductive Insertion (comment : Char) : List Char → List Char → Prop where
  /-- The line comes above another line, or behind the last line break. -/
  | above {before line} (after) (hstart : StartsLine before)
      (hline : isFiller comment line = true) :
      Insertion comment (before ++ after) (before ++ line ++ '\n' :: after)
  /-- The line comes behind the last line break and has no line break itself. -/
  | last {before line} (hstart : StartsLine before) (hline : isFiller comment line = true) :
      Insertion comment before (before ++ line)
  /-- The line comes below the last line, behind a line break of its own. -/
  | below {line} (text) (hline : isFiller comment line = true) :
      Insertion comment text (text ++ '\n' :: line)

theorem not_mem_squeeze {line : List Char} (hline : '\n' ∉ line) : '\n' ∉ squeeze line := by
  fun_induction squeeze line with
  | case1 => exact hline
  | case2 c rest _ _ ih => exact ih (List.not_mem_of_not_mem_cons hline)
  | case3 c rest _ _ ih => simpa using ih (List.not_mem_of_not_mem_cons hline)
  | case4 c rest _ ih =>
      rw [List.mem_cons, not_or] at hline ⊢
      exact ⟨hline.1, ih hline.2⟩

theorem not_mem_of_isFiller {comment : Char} {line : List Char}
    (hline : isFiller comment line = true) : '\n' ∉ line := by
  rw [isFiller, Bool.and_eq_true] at hline
  simpa using hline.1

@[simp] theorem addReturns_nil : addReturns [] = [] := rfl

theorem addReturns_of_not_mem {line : List Char} (hline : '\n' ∉ line) (rest : List Char) :
    addReturns (line ++ rest) = line ++ addReturns rest := by
  induction line with
  | nil => rfl
  | cons c line ih =>
      rw [List.mem_cons, not_or] at hline
      rw [List.cons_append, List.cons_append, ← ih hline.2]
      simp [addReturns, Ne.symm hline.1]

/-- A text is one line, or it has a first line with a line feed behind it. -/
theorem exists_line_append (text : List Char) :
    '\n' ∉ text ∨ ∃ line rest, '\n' ∉ line ∧ text = line ++ '\n' :: rest := by
  by_cases hmem : '\n' ∈ text
  · right
    obtain ⟨line, rest, htext, hline⟩ := List.eq_append_cons_of_mem hmem
    exact ⟨line, rest, hline, htext⟩
  · exact .inl hmem

end Text

/-! ## Tokens of an edited line -/

namespace Token

variable {comment : Char}

/-- Nothing behind a comment marker counts. -/
theorem scan_append_comment (hcomment : InstructionSet.isCommentMarker comment = true)
    (openWord head tail : List Char) :
    scan comment openWord (head ++ comment :: tail) = scan comment openWord head := by
  have hfront : (head ++ comment :: tail).takeWhile (· != comment) =
      head.takeWhile (· != comment) := by
    induction head with
    | nil => simp
    | cons c head ih => simp only [List.cons_append, List.takeWhile_cons, ih]
  rw [← scan_takeWhile hcomment, hfront, scan_takeWhile hcomment]

/-- A blank closes the open word and is forgotten. -/
theorem scan_cons_blank (hcomment : InstructionSet.isCommentMarker comment = true) {c : Char}
    (hblank : Text.isBlank c = true) (openWord text : List Char) :
    scan comment openWord (c :: text) = (scan comment [] text).bind (closeWord openWord) := by
  have hne := ne_comment hcomment (c := c) (by simp [isSyntax, hblank])
  have hword : isWordChar c = false :=
    (Bool.or_eq_false_iff.1 (isWordStart_eq_false_of_isBlank hblank)).1
  have hmark : ofMark? c = none := ofMark?_eq_none (by decide) hblank
  rw [scan]
  simp [hword, hne, hmark, hblank]

/-- The tokens of a line do not depend on the number and the kind of its blanks. -/
theorem scan_squeeze (hcomment : InstructionSet.isCommentMarker comment = true)
    (openWord line : List Char) :
    scan comment openWord (Text.squeeze line) = scan comment openWord line := by
  fun_induction Text.squeeze line generalizing openWord with
  | case1 => rfl
  | case2 c rest hc hnext ih =>
      -- The run goes on with `d`, which closes the open word in place of `c`.
      cases rest with
      | nil => cases hnext
      | cons d rest =>
          have hd : Text.isBlank d = true := hnext
          rw [ih, scan_cons_blank hcomment hc, scan_cons_blank hcomment hd,
            scan_cons_blank hcomment hd, Option.bind_assoc]
          rfl
  | case3 c rest hc _ ih =>
      rw [scan_cons_blank hcomment (by decide), scan_cons_blank hcomment hc, ih]
  | case4 c rest _ ih => simp only [scan, ih]

theorem scan_blanks (hcomment : InstructionSet.isCommentMarker comment = true)
    {blanks : List Char} (hblanks : ∀ c ∈ blanks, Text.isBlank c = true) :
    scan comment [] blanks = some [] := by
  induction blanks with
  | nil => rfl
  | cons c rest ih =>
      rw [List.forall_mem_cons] at hblanks
      rw [scan_cons_blank hcomment hblanks.1, ih hblanks.2]
      rfl

end Token

/-! ## Readings of an edited line -/

variable {isa : InstructionSet}

theorem Line.parse?_append_comment (hcomment : InstructionSet.isCommentMarker isa.comment = true)
    (head tail : List Char) :
    Line.parse? isa (head ++ isa.comment :: tail) = Line.parse? isa head := by
  rw [parse?, parse?, Token.tokenize?, Token.scan_append_comment hcomment]
  rfl

theorem Line.parse?_squeeze (hcomment : InstructionSet.isCommentMarker isa.comment = true)
    (line : List Char) : Line.parse? isa (Text.squeeze line) = Line.parse? isa line := by
  rw [parse?, parse?, Token.tokenize?, Token.scan_squeeze hcomment]
  rfl

/-- A line that is blank or holds only a comment is read as a blank line. -/
theorem Line.parse?_of_isFiller (hcomment : InstructionSet.isCommentMarker isa.comment = true)
    {line : List Char} (hline : Text.isFiller isa.comment line = true) :
    Line.parse? isa line = some .blank := by
  rw [Text.isFiller, Bool.and_eq_true, List.all_eq_true] at hline
  rw [parse?, Token.tokenize?, ← Token.scan_takeWhile hcomment,
    Token.scan_blanks hcomment hline.2]
  rfl

/-- Around a line, the readings of a text do not depend on the line. -/
theorem exists_lineReadings_around (isa : InstructionSet) {before after : List Char}
    (hstart : Text.StartsLine before) (hstop : Text.EndsLine after) :
    ∃ below, ∀ line, '\n' ∉ line →
      lineReadings isa (before ++ line ++ after ++ ['\n']) =
        lineReadings isa before ++ Line.parse? isa line :: below := by
  have hfirst : ∀ line rest, '\n' ∉ line →
      lineReadings isa (before ++ (line ++ '\n' :: rest)) =
        lineReadings isa before ++ Line.parse? isa line :: lineReadings isa rest := by
    intro line rest hline
    rw [lineReadings_append isa hstart, lineReadings_line isa hline]
  rcases hstop with rfl | ⟨rest, rfl⟩ | ⟨rest, rfl⟩
  · refine ⟨lineReadings isa [], fun line hline => ?_⟩
    simpa using hfirst line [] hline
  · refine ⟨lineReadings isa (rest ++ ['\n']), fun line hline => ?_⟩
    simpa using hfirst line (rest ++ ['\n']) hline
  · refine ⟨lineReadings isa (rest ++ ['\n']), fun line hline => ?_⟩
    have hreturn : '\n' ∉ line ++ ['\r'] := by simpa using hline
    have hread := hfirst (line ++ ['\r']) (rest ++ ['\n']) hreturn
    rw [Line.parse?_concat_blank isa (by decide)] at hread
    simpa using hread

/-- A line may be replaced by one that is read alike. -/
theorem assemble_replace_line {before line other after : List Char}
    (hline : Text.IsLine before line after) (hother : '\n' ∉ other)
    (hparse : Line.parse? isa other = Line.parse? isa line) :
    assemble isa (String.ofList (before ++ other ++ after)) =
      assemble isa (String.ofList (before ++ line ++ after)) := by
  obtain ⟨below, haround⟩ := exists_lineReadings_around isa hline.start hline.stop
  rw [← assemble_concat_newline isa (before ++ other ++ after),
    ← assemble_concat_newline isa (before ++ line ++ after)]
  apply assemble_congr
  rw [String.toList_ofList, String.toList_ofList, haround other hother, haround line hline.noFeed,
    hparse]

theorem lineReadings_addReturns (isa : InstructionSet) (text : List Char) :
    lineReadings isa (Text.addReturns text) = lineReadings isa text := by
  -- Induction on the length: one line is taken off the text at a time.
  induction hlength : text.length using Nat.strongRecOn generalizing text with
  | ind n ih =>
      rcases Text.exists_line_append text with hline | ⟨line, rest, hline, rfl⟩
      · have hsame := Text.addReturns_of_not_mem hline []
        rw [List.append_nil, Text.addReturns_nil, List.append_nil] at hsame
        rw [hsame]
      · have hbreak : Text.addReturns (line ++ '\n' :: rest) =
            (line ++ ['\r']) ++ '\n' :: Text.addReturns rest := by
          rw [Text.addReturns_of_not_mem hline]
          simp [Text.addReturns]
        have hreturn : '\n' ∉ line ++ ['\r'] := by simpa using hline
        have hrest : lineReadings isa (Text.addReturns rest) = lineReadings isa rest :=
          ih rest.length (by rw [← hlength, List.length_append, List.length_cons]; omega) rest rfl
        rw [hbreak, lineReadings_line isa hreturn, lineReadings_line isa hline, hrest,
          Line.parse?_concat_blank isa (by decide)]

/-! ## Edited texts -/

/-- An edit changes neither the image nor the failure. -/
theorem assemble_edit (hcomment : InstructionSet.isCommentMarker isa.comment = true)
    {text next : List Char} (hedit : Text.Edit isa.comment text next) :
    assemble isa (String.ofList next) = assemble isa (String.ofList text) := by
  cases hedit with
  | @dropComment before head tail after hline =>
      have hhead : '\n' ∉ head := fun hmem => hline.noFeed (List.mem_append_left _ hmem)
      exact assemble_replace_line hline hhead (Line.parse?_append_comment hcomment head tail).symm
  | @changeComment before head tail after other hline hother =>
      have hnew : '\n' ∉ head ++ isa.comment :: other := by
        have hold := hline.noFeed
        simp only [List.mem_append, List.mem_cons, not_or] at hold ⊢
        exact ⟨hold.1, hold.2.1, hother⟩
      apply assemble_replace_line hline hnew
      rw [Line.parse?_append_comment hcomment, Line.parse?_append_comment hcomment]
  | squeeze hline =>
      exact assemble_replace_line hline (Text.not_mem_squeeze hline.noFeed)
        (Line.parse?_squeeze hcomment _)
  | addReturns =>
      apply assemble_congr
      rw [String.toList_ofList, String.toList_ofList, lineReadings_addReturns]

/-- A line that says nothing does not change an image. -/
theorem assemble_insertion (hcomment : InstructionSet.isCommentMarker isa.comment = true)
    {text next : List Char} (hinsertion : Text.Insertion isa.comment text next) {image : Image}
    (hassemble : assemble isa (String.ofList text) = .ok image) :
    assemble isa (String.ofList next) = .ok image := by
  rw [← assemble_concat_newline] at hassemble ⊢
  -- With a line feed behind the text, the line has a line feed behind it.
  have hfiller : ∀ {line : List Char}, Text.isFiller isa.comment line = true → ∀ rest,
      lineReadings isa (line ++ '\n' :: rest) = some .blank :: lineReadings isa rest := by
    intro line hline rest
    rw [lineReadings_line isa (Text.not_mem_of_isFiller hline),
      Line.parse?_of_isFiller hcomment hline]
  cases hinsertion with
  | @above before line after hstart hline =>
      have hsource : lineReadings isa (String.ofList (before ++ after ++ ['\n'])).toList =
          lineReadings isa before ++ lineReadings isa (after ++ ['\n']) := by
        rw [String.toList_ofList, List.append_assoc, lineReadings_append isa hstart]
      refine assemble_insert_blank hsource ?_ hassemble
      rw [String.toList_ofList, List.append_assoc, List.append_assoc,
        lineReadings_append isa hstart, List.cons_append, hfiller hline]
  | @last before line hstart hline =>
      rw [← hassemble]
      apply assemble_congr
      rw [String.toList_ofList, String.toList_ofList, List.append_assoc,
        lineReadings_append isa hstart, lineReadings_append isa hstart, hfiller hline]
      rfl
  | @below line _ hline =>
      have hstart : Text.StartsLine (text ++ ['\n']) := .inr (by simp)
      refine assemble_insert_blank (List.append_nil _).symm ?_ hassemble
      have hshape : text ++ '\n' :: line ++ ['\n'] = (text ++ ['\n']) ++ (line ++ ['\n']) := by simp
      rw [String.toList_ofList, String.toList_ofList, hshape, lineReadings_append isa hstart,
        hfiller hline]
      rfl

/-- Edits of comments, blanks and line breaks, in any number, change nothing about
assembling a source, and lines that say nothing change no image. -/
theorem assemble_of_edits (hvalid : isa.validate = .ok ()) (source other : String) :
    (Relation.ReflTransGen (Text.Edit isa.comment) source.toList other.toList →
        assemble isa other = assemble isa source) ∧
      ∀ image, assemble isa source = .ok image →
        Relation.ReflTransGen
          (fun text next => Text.Edit isa.comment text next ∨ Text.Insertion isa.comment text next)
          source.toList other.toList →
        assemble isa other = .ok image := by
  have hcomment := (InstructionSet.validate_eq_ok_iff.1 hvalid).comment
  rw [← String.ofList_toList (s := source), ← String.ofList_toList (s := other)]
  simp only [String.toList_ofList]
  generalize source.toList = text
  generalize other.toList = next
  constructor
  · intro hedits
    induction hedits with
    | refl => rfl
    | tail _ hedit ih => rw [assemble_edit hcomment hedit, ih]
  · intro image hassemble hedits
    induction hedits with
    | refl => exact hassemble
    | tail _ hstep ih =>
        rcases hstep with hedit | hinsertion
        · rw [assemble_edit hcomment hedit, ih]
        · exact assemble_insertion hcomment hinsertion ih

/-- A comment goes and blanks are squeezed; then a comment is put on top and the
line breaks get their carriage returns. -/
theorem assemble_of_edits_loop :
    assemble .extended "loop: b loop " = assemble .extended "loop:\tb  loop ; spin" ∧
      assemble .extended "; top\r\nloop: b loop " = .ok ⟨[0x2000ffff#32], 256, by decide⟩ := by
  have hvalid := InstructionSet.validate_ofVariant .extended
  have hassemble : assemble .extended "loop: b loop " = .ok ⟨[0x2000ffff#32], 256, by decide⟩ := rfl
  have hdrop : Text.Edit ';' "loop:\tb  loop ; spin".toList "loop:\tb  loop ".toList :=
    @Text.Edit.dropComment ';' [] "loop:\tb  loop ".toList " spin".toList []
      ⟨.inl rfl, by decide, .inl rfl⟩
  have hsqueeze : Text.Edit ';' "loop:\tb  loop ".toList "loop: b loop ".toList :=
    @Text.Edit.squeeze ';' [] "loop:\tb  loop ".toList [] ⟨.inl rfl, by decide, .inl rfl⟩
  have habove : Text.Insertion ';' "loop: b loop ".toList "; top\nloop: b loop ".toList :=
    @Text.Insertion.above ';' [] "; top".toList "loop: b loop ".toList (.inl rfl) rfl
  have hreturns : Text.Edit ';' "; top\nloop: b loop ".toList "; top\r\nloop: b loop ".toList :=
    Text.Edit.addReturns "; top\nloop: b loop ".toList
  constructor
  · exact (assemble_of_edits hvalid _ _).1 (.tail (.single hdrop) hsqueeze)
  · exact (assemble_of_edits hvalid _ _).2 _ hassemble
      (.tail (.single (.inr habove)) (.inl hreturns))

end Asm32
