import Asm32.Assembly
import Asm32.Proofs.Encoding
import Mathlib.Data.List.Basic
import Mathlib.Data.List.Induction

/-!
# Programs and the scan that reads them

A program is its `Code`, a list of lines.  Its labels and statements are seen as
a whole, without an order of work: `Code.address?` finds the address of a label
anywhere in the program, and `Code.branches` the references of all branches.

The scan of `Asm32.Assembly` builds the same things line by line.
`Scan.Describes` is the invariant that ties its state to the lines read so far.

* `lineFault?` says when a line ends the scan and with which failure, and
  `scanFault?` finds the first line that does.  `scanFault?_eq_none_iff` says
  what it takes to have no fault.
* `Scan.Describes.line` is the step: a line without a fault extends the program
  that the state describes, and a line with a fault ends the scan with it.
* `result_scan` is the run over all lines of a text.
-/

namespace Asm32

/-- The lines of a source text, as far as they are read. -/
abbrev Code := List Line

namespace Code

/-- The lines of a text that are in the source syntax. -/
def ofTexts (isa : InstructionSet) (texts : List (List Char)) : Code :=
  texts.filterMap (Line.parse? isa)

/-- The texts are the lines of the program, one by one. -/
def ReadFrom (isa : InstructionSet) (p : Code) (texts : List (List Char)) : Prop :=
  texts.map (Line.parse? isa) = p.map some

/-- The lines of a source. -/
def ofSource (isa : InstructionSet) (source : String) : Code :=
  ofTexts isa (Text.lines source.toList)

/-- The statements, in the order of their words. -/
def statements (p : Code) : List Statement :=
  p.filterMap Line.statement

/-- The labels that a program defines, line by line. -/
def labels (p : Code) : List String :=
  p.filterMap Line.label

/-- The address of a label: the number of statements above the line that
defines it. -/
def address? (p : Code) (name : String) : Option Nat :=
  (p.findIdx? fun line => line.label == some name).map fun k => (statements (p.take k)).length

/-- The branches, each as a reference from its own address to its label. -/
def branches (isa : InstructionSet) (p : Code) : List Reference :=
  p.statements.zipIdx.filterMap fun (s, k) => (s.branchLabel? isa).map fun name => ⟨name, k⟩

/-! ## Texts that are in the syntax -/

theorem ofTexts_eq (isa : InstructionSet) (texts : List (List Char)) :
    ofTexts isa texts = (texts.map (Line.parse? isa)).filterMap id := by
  rw [List.filterMap_map]
  rfl

theorem readFrom_ofTexts {isa : InstructionSet} {texts : List (List Char)}
    (h : ∀ text ∈ texts, (Line.parse? isa text).isSome = true) :
    (ofTexts isa texts).ReadFrom isa texts := by
  unfold ReadFrom ofTexts
  induction texts with
  | nil => rfl
  | cons text rest ih =>
      rw [List.forall_mem_cons] at h
      obtain ⟨line, hline⟩ := Option.isSome_iff_exists.1 h.1
      rw [List.filterMap_cons_some hline, List.map_cons, List.map_cons, hline, ih h.2]

variable {isa : InstructionSet} {p q : Code} {texts others : List (List Char)}

theorem ReadFrom.ofTexts_eq (h : p.ReadFrom isa texts) : ofTexts isa texts = p := by
  rw [Code.ofTexts_eq, h, List.filterMap_map]
  exact List.filterMap_some

theorem ReadFrom.isSome (h : p.ReadFrom isa texts) :
    ∀ text ∈ texts, (Line.parse? isa text).isSome = true := by
  intro text htext
  have hmem : Line.parse? isa text ∈ p.map some := h ▸ List.mem_map_of_mem htext
  obtain ⟨line, _, hline⟩ := List.mem_map.1 hmem
  rw [← hline, Option.isSome_some]

theorem ReadFrom.append (h : p.ReadFrom isa texts) (hothers : q.ReadFrom isa others) :
    ReadFrom isa (p ++ q) (texts ++ others) := by
  rw [ReadFrom, List.map_append, List.map_append, h, hothers]

/-! ## One more line -/

theorem filterMap_concat {α : Type} (f : Line → Option α) (p : Code) (line : Line) :
    (p ++ [line]).filterMap f = p.filterMap f ++ (f line).toList := by
  rw [List.filterMap_append, List.filterMap_cons, List.filterMap_nil]
  cases f line <;> rfl

@[simp] theorem statements_concat (p : Code) (line : Line) :
    statements (p ++ [line]) = statements p ++ line.statement.toList :=
  filterMap_concat Line.statement p line

theorem labels_concat (p : Code) (line : Line) :
    labels (p ++ [line]) = labels p ++ line.label.toList :=
  filterMap_concat Line.label p line

theorem mem_labels_iff {p : Code} {name : String} :
    name ∈ p.labels ↔ p.any (fun line => line.label == some name) = true := by
  simp [labels]

theorem statements_append (p q : Code) : statements (p ++ q) = statements p ++ statements q :=
  List.filterMap_append

/-- What is said of every statement and its address is said of two programs one
after the other. -/
theorem forall_statements_append {p q : Code} {motive : Nat → Statement → Prop} :
    (∀ k s, (statements (p ++ q))[k]? = some s → motive k s) ↔
      (∀ k s, p.statements[k]? = some s → motive k s) ∧
        ∀ k s, q.statements[k]? = some s → motive (p.statements.length + k) s := by
  rw [statements_append]
  constructor
  · intro h
    refine ⟨fun k s hs => h k s ?_, fun k s hs => h _ s ?_⟩
    · rw [List.getElem?_append_left (List.getElem?_eq_some_iff.1 hs).1, hs]
    · rw [List.getElem?_append_right (Nat.le_add_right _ _), Nat.add_sub_cancel_left, hs]
  · intro h k s hs
    rcases Nat.lt_or_ge k p.statements.length with hk | hk
    · rw [List.getElem?_append_left hk] at hs
      exact h.1 k s hs
    · rw [List.getElem?_append_right hk] at hs
      have hmotive := h.2 _ s hs
      rwa [Nat.add_sub_cancel' hk] at hmotive

theorem forall_statements_concat {p : Code} {line : Line} {motive : Nat → Statement → Prop} :
    (∀ k s, (statements (p ++ [line]))[k]? = some s → motive k s) ↔
      (∀ k s, p.statements[k]? = some s → motive k s) ∧
        ∀ s, line.statement = some s → motive p.statements.length s := by
  rw [forall_statements_append]
  refine and_congr_right fun _ => ?_
  cases hstatement : line.statement with
  | none => simp [statements, hstatement]
  | some statement => simp [statements, hstatement, List.getElem?_singleton]

theorem labels_append (p q : Code) : labels (p ++ q) = labels p ++ labels q :=
  List.filterMap_append

/-- The labels with an address are those that a line defines. -/
theorem address?_eq_none_iff {p : Code} {name : String} :
    p.address? name = none ↔ name ∉ p.labels := by
  simp [address?, labels, List.findIdx?_eq_none_iff]

theorem exists_address?_of_mem_labels {p : Code} {name : String} (h : name ∈ p.labels) :
    ∃ t, p.address? name = some t := by
  apply Option.ne_none_iff_exists'.1
  rw [ne_eq, address?_eq_none_iff, not_not]
  exact h

/-- A label keeps its address when lines follow, and moves behind the statements
of lines above it. -/
theorem address?_append (p q : Code) (name : String) :
    address? (p ++ q) name =
      (p.address? name).or ((q.address? name).map fun t => p.statements.length + t) := by
  unfold address?
  rw [List.findIdx?_append]
  cases hfind : p.findIdx? fun line => line.label == some name with
  | some k =>
      have hk : k < p.length := List.findIdx?_eq_some_iff_getElem.1 hfind |>.1
      simp [List.take_append_of_le_length (Nat.le_of_lt hk)]
  | none =>
      simp only [Option.none_or, Option.map_map, Option.map_none]
      congr 1
      funext k
      simp [Nat.add_comm k, List.take_length_add_append, statements_append]

/-- A label of the last line stands behind all statements above it. -/
theorem address?_concat (p : Code) (line : Line) (name : String) :
    address? (p ++ [line]) name =
      (p.address? name).or (if line.label = some name then some p.statements.length else none) := by
  rw [address?_append]
  by_cases hlabel : line.label = some name <;>
    simp [address?, statements, hlabel, List.findIdx?_cons]

theorem address?_le {p : Code} {name : String} {t : Nat} (h : p.address? name = some t) :
    t ≤ p.statements.length := by
  obtain ⟨k, _, rfl⟩ := Option.map_eq_some_iff.1 h
  exact ((List.take_sublist k p).filterMap Line.statement).length_le

@[simp] theorem branches_concat (isa : InstructionSet) (p : Code) (line : Line) :
    branches isa (p ++ [line]) =
      branches isa p ++ (line.statement.bind fun s =>
        (s.branchLabel? isa).map fun name => ⟨name, p.statements.length⟩).toList := by
  unfold branches
  rw [statements_concat]
  cases line.statement with
  | none => simp
  | some s =>
      simp only [Option.toList_some, List.zipIdx_append, List.filterMap_append]
      cases hlabel : s.branchLabel? isa <;> simp [hlabel]

end Code

/-! ## Faults of lines -/

/-- Why a statement ends the scan: it cannot be encoded. -/
def encodeFault? (isa : InstructionSet) (number address : Nat) (s : Statement) :
    Option AssemblyError :=
  match isa.encode s.mnemonic s.operands address with
  | .error cause => some (.encode number cause)
  | .ok _ => none

theorem encodeFault?_eq_none_iff {isa : InstructionSet} {number address : Nat} {s : Statement} :
    encodeFault? isa number address s = none ↔
      ∃ encoded, isa.encode s.mnemonic s.operands address = .ok encoded := by
  unfold encodeFault?
  cases isa.encode s.mnemonic s.operands address <;> simp

theorem encodeFault?_congr {isa : InstructionSet} {address other : Nat} {s t : Statement}
    (h : (isa.encode s.mnemonic s.operands address).map Encoded.word =
      (isa.encode t.mnemonic t.operands other).map Encoded.word) (number : Nat) :
    encodeFault? isa number address s = encodeFault? isa number other t := by
  unfold encodeFault?
  cases hs : isa.encode s.mnemonic s.operands address <;>
    cases ht : isa.encode t.mnemonic t.operands other <;> simp_all [Except.map]

theorem encodeFault?_eq_some_iff {isa : InstructionSet} {number address : Nat} {s : Statement}
    {e : AssemblyError} :
    encodeFault? isa number address s = some e ↔
      ∃ cause, isa.encode s.mnemonic s.operands address = .error cause ∧
        e = .encode number cause := by
  unfold encodeFault?
  cases isa.encode s.mnemonic s.operands address <;> simp [eq_comm]

/-- Why a line ends the scan, given the program above it.  A line outside the
syntax comes before a label that is already defined, and that before a
statement that cannot be encoded. -/
def lineFault? (isa : InstructionSet) (above : Code) (number : Nat) (text : List Char) :
    Option AssemblyError :=
  match Line.parse? isa text with
  | none => some (.syntaxError number)
  | some line =>
      match line.label.filter fun name => above.any fun other => other.label == some name with
      | some name => some (.duplicateLabel number name)
      | none => line.statement.bind (encodeFault? isa number above.statements.length)

/-- The fault of the first line that has one; lines are numbered from one. -/
def scanFault? (isa : InstructionSet) (texts : List (List Char)) : Option AssemblyError :=
  texts.zipIdx.findSome? fun (text, k) =>
    lineFault? isa (.ofTexts isa (texts.take k)) (k + 1) text

/-- Whether one more line has a fault depends on the lines above it alone. -/
theorem scanFault?_concat (isa : InstructionSet) (texts : List (List Char)) (text : List Char) :
    scanFault? isa (texts ++ [text]) =
      (scanFault? isa texts).or
        (lineFault? isa (.ofTexts isa texts) (texts.length + 1) text) := by
  have habove : texts.zipIdx.findSome? (fun (text', k) =>
      lineFault? isa (.ofTexts isa ((texts ++ [text]).take k)) (k + 1) text') =
        scanFault? isa texts := by
    rw [scanFault?, ← List.head?_filterMap, ← List.head?_filterMap]
    congr 1
    apply List.filterMap_congr
    intro entry hmem
    obtain ⟨text', k⟩ := entry
    have hk : k < texts.length :=
      (List.getElem?_eq_some_iff.1 (List.mk_mem_zipIdx_iff_getElem?.1 hmem)).1
    dsimp only
    rw [List.take_append_of_le_length (Nat.le_of_lt hk)]
  rw [← habove, scanFault?, List.zipIdx_append, List.findSome?_append]
  simp

/-- Lines that are read alike have the same fault. -/
theorem scanFault?_congr {isa : InstructionSet} {texts others : List (List Char)}
    (h : texts.map (Line.parse? isa) = others.map (Line.parse? isa)) :
    scanFault? isa texts = scanFault? isa others := by
  induction texts using List.reverseRecOn generalizing others with
  | nil =>
      rw [List.map_nil, eq_comm, List.map_eq_nil_iff] at h
      rw [h]
  | append_singleton texts text ih =>
      rw [List.map_append, eq_comm, List.map_eq_append_iff] at h
      obtain ⟨above, last, rfl, habove, hlast⟩ := h
      obtain ⟨other, rfl, hother⟩ := List.map_eq_singleton_iff.1 hlast
      have hcode : Code.ofTexts isa above = Code.ofTexts isa texts := by
        rw [Code.ofTexts_eq, habove, Code.ofTexts_eq]
      have hlength : above.length = texts.length := by
        simpa using congrArg List.length habove
      rw [scanFault?_concat, scanFault?_concat, ih habove.symm, hcode, hlength, lineFault?,
        lineFault?, hother]

/-- A line has no fault if it is in the syntax, its label is new and its
statement can be encoded. -/
theorem lineFault?_eq_none_iff {isa : InstructionSet} {above : Code} {number : Nat}
    {text : List Char} :
    lineFault? isa above number text = none ↔
      ∃ line, Line.parse? isa text = some line ∧
        (∀ name, line.label = some name → name ∉ above.labels) ∧
        ∀ s, line.statement = some s →
          ∃ encoded, isa.encode s.mnemonic s.operands above.statements.length = .ok encoded := by
  unfold lineFault?
  cases Line.parse? isa text with
  | none => simp
  | some line =>
      simp only [Option.some.injEq, exists_eq_left', Code.mem_labels_iff]
      rw [← Option.filter_eq_none_iff]
      cases line.label.filter fun name => above.any fun other => other.label == some name with
      | some name => simp
      | none =>
          simp only [true_and, Option.bind_eq_none_iff]
          exact forall₂_congr fun s _ => encodeFault?_eq_none_iff

/-- A text has no fault if all lines are in the syntax, no label is defined twice
and every statement can be encoded. -/
theorem scanFault?_eq_none_iff {isa : InstructionSet} {texts : List (List Char)} :
    scanFault? isa texts = none ↔
      (∀ text ∈ texts, (Line.parse? isa text).isSome = true) ∧
        (Code.ofTexts isa texts).labels.Nodup ∧
        ∀ k s, (Code.ofTexts isa texts).statements[k]? = some s →
          ∃ encoded, isa.encode s.mnemonic s.operands k = .ok encoded := by
  -- From the last line: the lines above decide whether its label is new.
  induction texts using List.reverseRecOn with
  | nil => simp [scanFault?, Code.ofTexts, Code.labels, Code.statements]
  | append_singleton texts text ih =>
      rw [scanFault?_concat, Option.or_eq_none_iff, ih, lineFault?_eq_none_iff,
        List.forall_mem_append, List.forall_mem_singleton]
      cases hparse : Line.parse? isa text with
      | none => simp
      | some line =>
          have hcode : Code.ofTexts isa (texts ++ [text]) = Code.ofTexts isa texts ++ [line] := by
            simp [Code.ofTexts, hparse]
          have hlabels : (Code.ofTexts isa (texts ++ [text])).labels.Nodup ↔
              (Code.ofTexts isa texts).labels.Nodup ∧
                ∀ name, line.label = some name → name ∉ (Code.ofTexts isa texts).labels := by
            rw [hcode, Code.labels_concat, List.nodup_append]
            cases line.label <;> simp [List.forall_mem_ne']
          rw [hlabels, hcode, Code.forall_statements_concat]
          simp only [Option.some.injEq, exists_eq_left', Option.isSome_some, and_true]
          tauto

/-! ## The state of a scan -/

/-- The word that encoding gives the statement at an address.  A branch still
lacks its displacement. -/
def encodedWord (isa : InstructionSet) (address : Nat) (s : Statement) : Word :=
  match isa.encode s.mnemonic s.operands address with
  | .ok encoded => encoded.word
  | .error _ => 0

theorem encodedWord_congr {isa : InstructionSet} {address other : Nat} {s t : Statement}
    (h : (isa.encode s.mnemonic s.operands address).map Encoded.word =
      (isa.encode t.mnemonic t.operands other).map Encoded.word) :
    encodedWord isa address s = encodedWord isa other t := by
  have hmap : ∀ k s, encodedWord isa k s =
      match (isa.encode s.mnemonic s.operands k).map Encoded.word with
      | .ok word => word
      | .error _ => 0 := by
    intro k s
    unfold encodedWord
    cases isa.encode s.mnemonic s.operands k <;> rfl
  rw [hmap address, hmap other, h]

theorem encodedWord_address (isa : InstructionSet) (address other : Nat) (s : Statement) :
    encodedWord isa address s = encodedWord isa other s :=
  encodedWord_congr (isa.map_word_encode _ _ address other)

namespace Scan

/-- The scan has read the lines of `p` and nothing else: it knows the addresses
of their labels, it has one word for each statement, and it holds one reference
for each branch. -/
structure Describes (isa : InstructionSet) (p : Code) (s : Scan) : Prop where
  labels : ∀ name, s.labels.get? name = p.address? name
  encodes : ∀ k statement, p.statements[k]? = some statement →
    ∃ encoded, isa.encode statement.mnemonic statement.operands k = .ok encoded
  words : s.words = p.statements.mapIdx (encodedWord isa)
  pending : s.pending = p.branches isa

theorem describes_start (isa : InstructionSet) : start.Describes isa [] where
  labels _ := rfl
  encodes k statement h := by simp [Code.statements] at h
  words := rfl
  pending := rfl

variable {isa : InstructionSet} {p : Code} {s : Scan}

theorem Describes.length_words (h : s.Describes isa p) :
    s.words.length = p.statements.length := by
  rw [h.words, List.length_mapIdx]

/-! ## One step of the scan -/

theorem result_defineLabel_some (s : Scan) (number : Nat) (name : String) :
    (s.defineLabel number (some name)).result =
      (s.labels.define name s.words.length number).map fun labels => { s with labels } := by
  simp only [defineLabel, Logged.result_bind, Logged.ofExcept, Logged.emit, Logged.result_pure]
  cases s.labels.define name s.words.length number <;> rfl

theorem result_addStatement_some (isa : InstructionSet) (s : Scan) (number : Nat)
    (statement : Statement) :
    (s.addStatement isa number (some statement)).result =
      ((isa.encode statement.mnemonic statement.operands s.words.length).mapError
        (.encode number)).map fun encoded =>
          { s with
            words := s.words ++ [encoded.word]
            pending := s.pending ++ encoded.pending.toList } := by
  simp only [addStatement, Logged.result_bind, Logged.ofExcept, Logged.emit, Logged.result_pure]
  cases isa.encode statement.mnemonic statement.operands s.words.length <;> rfl

theorem result_line (isa : InstructionSet) (s : Scan) (number : Nat) (text : List Char) :
    (s.line isa number text).result =
      match Line.parse? isa text with
      | none => .error (.syntaxError number)
      | some line =>
          (s.defineLabel number line.label).result.bind fun next =>
            (next.addStatement isa number line.statement).result := by
  simp only [line, Line.parse, Logged.result_bind, Logged.ofExcept]
  cases Line.parse? isa text <;> rfl

/-- Defining the label of a line leaves all but the labels as they are. -/
theorem Describes.defineLabel (h : s.Describes isa p) (number : Nat) {label : Option String}
    (hfresh : ∀ name, label = some name → p.address? name = none) :
    ∃ labels : LabelTable,
      (s.defineLabel number label).result = .ok { s with labels } ∧
      ∀ name, labels.get? name =
        (p.address? name).or (if label = some name then some p.statements.length else none) := by
  cases label with
  | none => exact ⟨s.labels, rfl, fun name => by simp [h.labels]⟩
  | some name =>
      have hnone : s.labels.get? name = none := by rw [h.labels, hfresh name rfl]
      have hdefine : s.labels.define name s.words.length number =
          .ok ⟨(name, s.words.length) :: s.labels.entries⟩ :=
        LabelTable.define_eq_ok_iff.2 ⟨hnone, rfl⟩
      refine ⟨_, by rw [result_defineLabel_some, hdefine]; rfl, fun other => ?_⟩
      · rw [LabelTable.get?_of_define hdefine other, h.length_words, h.labels]
        by_cases hname : other = name
        · subst hname
          simp [hfresh other rfl]
        · simp [hname, Ne.symm hname]

/-- Encoding the statement of a line completes the step: the state describes the
program with that line. -/
theorem Describes.addStatement (h : s.Describes isa p) (number : Nat) {line : Line}
    {labels : LabelTable}
    (hlabels : ∀ name, labels.get? name = Code.address? (p ++ [line]) name)
    (hencodes : ∀ statement, line.statement = some statement → ∃ encoded,
      isa.encode statement.mnemonic statement.operands p.statements.length = .ok encoded) :
    ∃ next, (({ s with labels } : Scan).addStatement isa number line.statement).result = .ok next ∧
      next.Describes isa (p ++ [line]) := by
  cases hstatement : line.statement with
  | none =>
      refine ⟨_, rfl, hlabels, ?_, ?_, ?_⟩
      · simpa [hstatement] using h.encodes
      · simpa [hstatement] using h.words
      · simpa [hstatement] using h.pending
  | some statement =>
      obtain ⟨encoded, hencode⟩ := hencodes statement hstatement
      rw [result_addStatement_some]
      simp only [h.length_words, hencode]
      refine ⟨_, rfl, hlabels, ?_, ?_, ?_⟩
      · refine Code.forall_statements_concat.2 ⟨h.encodes, fun other hother => ?_⟩
        rw [hstatement, Option.some.injEq] at hother
        exact ⟨encoded, hother ▸ hencode⟩
      · simp [hstatement, h.words, encodedWord, hencode]
      · have hpending := InstructionSet.pending_of_encode hencode
        simp [hstatement, h.pending, hpending]

/-- One line of the scan.  A line with a fault ends it with that fault; a line
without one extends the program that the state describes. -/
theorem Describes.line (h : s.Describes isa p) (number : Nat) (text : List Char) :
    match lineFault? isa p number text with
    | some e => (s.line isa number text).result = .error e
    | none => ∃ line next, Line.parse? isa text = some line ∧
        (s.line isa number text).result = .ok next ∧ next.Describes isa (p ++ [line]) := by
  rw [result_line, lineFault?]
  cases Line.parse? isa text with
  | none => rfl
  | some line =>
      dsimp only
      cases hduplicate : line.label.filter
          (fun name => p.any fun other => other.label == some name) with
      | some name =>
          obtain ⟨hlabel, hany⟩ := Option.filter_eq_some_iff.1 hduplicate
          obtain ⟨t, ht⟩ := Code.exists_address?_of_mem_labels (Code.mem_labels_iff.2 hany)
          dsimp only
          rw [hlabel, result_defineLabel_some, LabelTable.define, h.labels, ht]
          rfl
      | none =>
          have hfresh : ∀ name, line.label = some name → p.address? name = none := by
            intro name hlabel
            rw [Code.address?_eq_none_iff, Code.mem_labels_iff]
            simpa [hlabel] using hduplicate
          obtain ⟨labels, hdefine, hlabels⟩ := h.defineLabel number hfresh
          have hlabels' := fun name =>
            (hlabels name).trans (Code.address?_concat p line name).symm
          rw [hdefine]
          cases hfault : line.statement.bind (encodeFault? isa number p.statements.length) with
          | some e =>
              obtain ⟨statement, hstatement, hencode⟩ := Option.bind_eq_some_iff.1 hfault
              obtain ⟨cause, hcause, rfl⟩ := encodeFault?_eq_some_iff.1 hencode
              dsimp only [Except.bind]
              rw [hstatement, result_addStatement_some, h.length_words, hcause]
              rfl
          | none =>
              have hencodes : ∀ statement, line.statement = some statement → ∃ encoded,
                  isa.encode statement.mnemonic statement.operands p.statements.length =
                    .ok encoded := by
                intro statement hstatement
                exact encodeFault?_eq_none_iff.1 (Option.bind_eq_none_iff.1 hfault _ hstatement)
              obtain ⟨next, hadd, hnext⟩ := h.addStatement number hlabels' hencodes
              exact ⟨line, next, rfl, hadd, hnext⟩

/-! ## The run over all lines -/

theorem result_lines_append (isa : InstructionSet) (s : Scan) (number : Nat)
    (texts others : List (List Char)) :
    (s.lines isa number (texts ++ others)).result =
      (s.lines isa number texts).result.bind fun next =>
        (next.lines isa (number + texts.length) others).result := by
  induction texts generalizing s number with
  | nil => rfl
  | cons text rest ih =>
      simp only [List.cons_append, lines, Logged.result_bind]
      cases (s.line isa number text).result with
      | error e => rfl
      | ok next =>
          have hnumber : number + 1 + rest.length = number + (rest.length + 1) := by omega
          simp only [Except.bind, ih, List.length_cons, hnumber]

/-- The scan of a text ends with the fault of the first line that has one, and
otherwise describes the program. -/
theorem result_scan (isa : InstructionSet) (texts : List (List Char)) :
    match scanFault? isa texts with
    | some e => (start.lines isa 1 texts).result = .error e
    | none => ∃ s, (start.lines isa 1 texts).result = .ok s ∧
        s.Describes isa (.ofTexts isa texts) := by
  -- Induction on the last line: it is scanned after all lines above it.
  induction texts using List.reverseRecOn with
  | nil => exact ⟨start, rfl, describes_start isa⟩
  | append_singleton texts text ih =>
      rw [scanFault?_concat, result_lines_append]
      cases hfault : scanFault? isa texts with
      | some e =>
          rw [hfault] at ih
          simp only [Option.some_or, ih, Except.bind]
      | none =>
          rw [hfault] at ih
          obtain ⟨s, hresult, hs⟩ := ih
          have hline := hs.line (texts.length + 1) text
          have hone : (s.lines isa (1 + texts.length) [text]).result =
              (s.line isa (texts.length + 1) text).result := by
            rw [Nat.add_comm, lines, Logged.result_bind]
            cases (s.line isa (texts.length + 1) text).result <;> rfl
          simp only [Option.none_or, hresult, Except.bind, hone]
          cases hlast : lineFault? isa (.ofTexts isa texts) (texts.length + 1) text with
          | some e =>
              rw [hlast] at hline
              exact hline
          | none =>
              rw [hlast] at hline
              obtain ⟨line, next, hparse, hnext, hdescribes⟩ := hline
              refine ⟨next, hnext, ?_⟩
              simpa [Code.ofTexts, hparse] using hdescribes

end Scan

end Asm32
