import Asm32.Proofs.BranchTarget
import Asm32.Proofs.Safety

/-!
# The log of a run

A run reports its steps as it makes them: the scan reports labels and words line
by line, the patch pass reports each branch, and one more event counts them all.
The log is a second account of the run, and it is complete: the words of the
program can be made from the events alone.

* `Code.scanEvents` are the events of the scan, read off the program.
  `Scan.events_line` is the step, `Scan.events_scan` the run over all lines.
* `events_fixup` are those of the patch pass, one for each reference.
* `Scan.Describes.forall₂_reportsPatch` pairs them with the branches of the program.
  `Code.exists_labelDefined` finds the definition of the label in the log.
* `Event.replay` makes words from events.  `words_fixup_eq_foldl` says that the
  patch pass does nothing that its events do not tell, and `replay_assemblyEvents`
  puts the two passes together.
-/

namespace Asm32

namespace Event

/-- The kinds of event. -/
inductive Kind where
  | labelDefined
  | encoded
  | patched
  | assembled
deriving DecidableEq, Repr

/-- The kind of an event. -/
def kind : Event → Kind
  | .labelDefined .. => .labelDefined
  | .encoded .. => .encoded
  | .patched .. => .patched
  | .assembled .. => .assembled

/-- The number of events of a kind. -/
def count (kind : Kind) (events : List Event) : Nat :=
  (events.map Event.kind).count kind

/-- The address and the word of an encoded instruction. -/
def encoding? : Event → Option (Nat × Word)
  | .encoded _ address word _ => some (address, word)
  | _ => none

/-- The address and the offset of a patched branch. -/
def patch? : Event → Option (Nat × Int64)
  | .patched _ address _ offset => some (address, offset)
  | _ => none

/-- Write an offset into the displacement of the word at an address. -/
def writeOffset (disp : Field) (words : List Word) (patch : Nat × Int64) : List Word :=
  words.modify patch.1 fun word => disp.replace word (lowWord patch.2)

/-- Make words from events: take the encoded words, then write each patch. -/
def replay (disp : Field) (events : List Event) : List Word :=
  (events.filterMap patch?).foldl (writeOffset disp) ((events.filterMap encoding?).map Prod.snd)

@[simp] theorem count_append (kind : Kind) (events others : List Event) :
    count kind (events ++ others) = count kind events + count kind others := by
  rw [count, List.map_append, List.count_append]
  rfl

end Event

/-! ## The events of a program -/

/-- The events of a line at a given address: its label first, then its word. -/
def Line.events (isa : InstructionSet) (number address : Nat) (line : Line) : List Event :=
  (line.label.map fun name => Event.labelDefined name address number).toList ++
    (line.statement.map fun s =>
      Event.encoded number address (encodedWord isa address s) s.mnemonic).toList

/-- The events of the lines of a program, in order.  Lines are numbered from one,
and a line is at the address behind the statements above it. -/
def Code.scanEvents (isa : InstructionSet) (p : Code) : List Event :=
  p.zipIdx.flatMap fun (line, k) => line.events isa (k + 1) (statements (p.take k)).length

/-- Whether a statement is of the branch format. -/
def Statement.isBranch (isa : InstructionSet) (s : Statement) : Bool :=
  (isa.lookup? s.mnemonic).any fun i => i.format = .j

/-- The event reports the patch of the branch `s` at address `k`.  It names the
label, the address in the one event that defines this label, and the distance to
it from the word behind the branch. -/
def Event.ReportsPatch (scanned : List Event) (s : Statement) (k : Nat) (event : Event) : Prop :=
  ∃ name target line offset, s.operands = [.plain name] ∧
    event = .patched name k target offset ∧
    (∀ t l, Event.labelDefined name t l ∈ scanned ↔ t = target ∧ l = line) ∧
    offset = Int64.ofInt (target - (k + 1))

namespace Line

variable (isa : InstructionSet) (number address : Nat) (line : Line)

theorem encodings_events :
    (line.events isa number address).filterMap Event.encoding? =
      (line.statement.map fun s => (address, encodedWord isa address s)).toList := by
  obtain ⟨label, statement⟩ := line
  cases label <;> cases statement <;> rfl

theorem patches_events : (line.events isa number address).filterMap Event.patch? = [] := by
  obtain ⟨label, statement⟩ := line
  cases label <;> cases statement <;> rfl

theorem count_events :
    Event.count .encoded (line.events isa number address) = line.statement.toList.length ∧
      Event.count .labelDefined (line.events isa number address) = line.label.toList.length ∧
      Event.count .patched (line.events isa number address) = 0 := by
  obtain ⟨label, statement⟩ := line
  cases label <;> cases statement <;> exact ⟨rfl, rfl, rfl⟩

end Line

namespace Code

variable {isa : InstructionSet} {p : Code}

theorem scanEvents_concat (isa : InstructionSet) (p : Code) (line : Line) :
    scanEvents isa (p ++ [line]) =
      scanEvents isa p ++ line.events isa (p.length + 1) p.statements.length := by
  have habove : p.zipIdx.flatMap (fun (other, k) =>
      other.events isa (k + 1) (statements ((p ++ [line]).take k)).length) = scanEvents isa p := by
    apply List.flatMap_congr
    intro entry hentry
    obtain ⟨other, k⟩ := entry
    have hk : k < p.length :=
      (List.getElem?_eq_some_iff.1 (List.mk_mem_zipIdx_iff_getElem?.1 hentry)).1
    dsimp only
    rw [List.take_append_of_le_length (Nat.le_of_lt hk)]
  rw [scanEvents, List.zipIdx_append, List.flatMap_append, habove]
  simp

/-- The encoded words are those of the statements, at the addresses 0, 1, 2 and
so on. -/
theorem encodings_scanEvents (isa : InstructionSet) (p : Code) :
    (p.scanEvents isa).filterMap Event.encoding? =
      p.statements.mapIdx fun k s => (k, encodedWord isa k s) := by
  induction p using List.reverseRecOn with
  | nil => rfl
  | append_singleton p line ih =>
      rw [scanEvents_concat, List.filterMap_append, ih, statements_concat, List.mapIdx_append,
        Line.encodings_events]
      cases line.statement <;> simp

theorem patches_scanEvents (isa : InstructionSet) (p : Code) :
    (p.scanEvents isa).filterMap Event.patch? = [] := by
  induction p using List.reverseRecOn with
  | nil => rfl
  | append_singleton p line ih =>
      rw [scanEvents_concat, List.filterMap_append, ih, Line.patches_events, List.nil_append]

/-- Each label and each statement has one event. -/
theorem count_scanEvents (isa : InstructionSet) (p : Code) :
    Event.count .encoded (p.scanEvents isa) = p.statements.length ∧
      Event.count .labelDefined (p.scanEvents isa) = p.labels.length ∧
      Event.count .patched (p.scanEvents isa) = 0 := by
  induction p using List.reverseRecOn with
  | nil => exact ⟨rfl, rfl, rfl⟩
  | append_singleton p line ih =>
      obtain ⟨hencoded, hlabels, hpatched⟩ := ih
      obtain ⟨hstatement, hlabel, hnone⟩ :=
        line.count_events isa (p.length + 1) (statements p).length
      rw [scanEvents_concat, statements_concat, labels_concat]
      simp only [Event.count_append, hencoded, hlabels, hpatched, hstatement, hlabel, hnone,
        List.length_append, and_self]

/-- A label is reported at the line that defines it. -/
theorem mem_scanEvents_labelDefined_iff {name : String} {address number : Nat} :
    Event.labelDefined name address number ∈ p.scanEvents isa ↔
      ∃ k line, p[k]? = some line ∧ line.label = some name ∧
        address = (statements (p.take k)).length ∧ number = k + 1 := by
  simp only [scanEvents, Line.events, List.mem_flatMap, Prod.exists,
    List.mk_mem_zipIdx_iff_getElem?, List.mem_append, Option.mem_toList, Option.map_eq_some_iff,
    Event.labelDefined.injEq, reduceCtorEq, and_false, exists_false, or_false]
  constructor
  · intro hmem
    obtain ⟨line, k, hline, _, hlabel, rfl, rfl, rfl⟩ := hmem
    exact ⟨k, line, hline, hlabel, rfl, rfl⟩
  · intro hline
    obtain ⟨k, line, hline, hlabel, rfl, rfl⟩ := hline
    exact ⟨line, k, hline, name, hlabel, rfl, rfl, rfl⟩

/-- Two lines do not define the same label. -/
theorem eq_of_label_eq (hnodup : p.labels.Nodup) {name : String} {i j : Nat} {line other : Line}
    (hline : p[i]? = some line) (hother : p[j]? = some other) (hlabel : line.label = some name)
    (hsame : other.label = some name) : i = j := by
  have hapart : ∀ {i j : Nat} {line other : Line}, p[i]? = some line → p[j]? = some other →
      line.label = some name → other.label = some name → ¬i < j := by
    intro i j line other hline hother hlabel hsame hlt
    have hpairs := List.pairwise_filterMap.1 hnodup
    obtain ⟨hi, rfl⟩ := List.getElem?_eq_some_iff.1 hline
    obtain ⟨hj, rfl⟩ := List.getElem?_eq_some_iff.1 hother
    exact List.pairwise_iff_getElem.1 hpairs i j hi hj hlt name hlabel name hsame rfl
  have hleft := hapart hline hother hlabel hsame
  have hright := hapart hother hline hsame hlabel
  omega

/-- A label that is defined once has one event, with its address. -/
theorem exists_labelDefined (isa : InstructionSet) (hnodup : p.labels.Nodup) {name : String}
    {target : Nat} (haddress : p.address? name = some target) :
    ∃ line, ∀ t l, Event.labelDefined name t l ∈ p.scanEvents isa ↔ t = target ∧ l = line := by
  obtain ⟨k, hfind, rfl⟩ := Option.map_eq_some_iff.1 haddress
  obtain ⟨hk, hlabel, _⟩ := List.findIdx?_eq_some_iff_getElem.1 hfind
  have hline := List.getElem?_eq_getElem hk
  rw [beq_iff_eq] at hlabel
  refine ⟨k + 1, fun t l => ?_⟩
  rw [mem_scanEvents_labelDefined_iff]
  constructor
  · intro hmem
    obtain ⟨j, other, hother, hsame, rfl, rfl⟩ := hmem
    obtain rfl := eq_of_label_eq hnodup hother hline hsame hlabel
    exact ⟨rfl, rfl⟩
  · intro hevent
    obtain ⟨rfl, rfl⟩ := hevent
    exact ⟨k, _, hline, hlabel, rfl, rfl⟩

end Code

/-! ## The events of the scan -/

theorem Logged.bind_pure {α : Type} (x : Logged α) : (x >>= pure) = x := by
  obtain ⟨events, result⟩ := x
  change Logged.bind _ _ = _
  unfold Logged.bind
  cases result with
  | error e => rfl
  | ok a => simp

namespace Scan

variable {isa : InstructionSet} {s next : Scan} {number : Nat}

theorem events_defineLabel {label : Option String}
    (h : (s.defineLabel number label).result = .ok next) :
    (s.defineLabel number label).events =
        (label.map fun name => Event.labelDefined name s.words.length number).toList ∧
      next.words = s.words ∧ next.labels.size = s.labels.size + label.toList.length := by
  cases label with
  | none =>
      cases h
      exact ⟨rfl, rfl, rfl⟩
  | some name =>
      rw [result_defineLabel_some] at h
      cases hdefine : s.labels.define name s.words.length number with
      | error e =>
          rw [hdefine] at h
          cases h
      | ok labels =>
          rw [hdefine] at h
          cases h
          obtain ⟨_, rfl⟩ := LabelTable.define_eq_ok_iff.1 hdefine
          refine ⟨?_, rfl, rfl⟩
          rw [defineLabel, hdefine, Logged.events_bind_of_ok rfl]
          rfl

theorem events_addStatement {statement : Option Statement}
    (h : (s.addStatement isa number statement).result = .ok next) :
    (s.addStatement isa number statement).events =
        (statement.map fun st => Event.encoded number s.words.length
          (encodedWord isa s.words.length st) st.mnemonic).toList ∧
      next.labels = s.labels := by
  cases statement with
  | none =>
      cases h
      exact ⟨rfl, rfl⟩
  | some st =>
      rw [result_addStatement_some] at h
      cases hencode : isa.encode st.mnemonic st.operands s.words.length with
      | error e =>
          rw [hencode] at h
          cases h
      | ok encoded =>
          rw [hencode] at h
          cases h
          have hword : encodedWord isa s.words.length st = encoded.word := by
            rw [encodedWord, hencode]
          refine ⟨?_, rfl⟩
          rw [addStatement, hencode, Logged.events_bind_of_ok rfl, Option.map_some, hword]
          rfl

/-- A line reports its label and its word. -/
theorem events_line {text : List Char} (h : (s.line isa number text).result = .ok next) :
    ∃ line, Line.parse? isa text = some line ∧
      (s.line isa number text).events = line.events isa number s.words.length ∧
      next.labels.size = s.labels.size + line.label.toList.length := by
  rw [result_line] at h
  cases hparse : Line.parse? isa text with
  | none =>
      rw [hparse] at h
      cases h
  | some line =>
      rw [hparse] at h
      dsimp only at h
      cases hdefine : (s.defineLabel number line.label).result with
      | error e =>
          rw [hdefine] at h
          cases h
      | ok labelled =>
          rw [hdefine] at h
          obtain ⟨hlabel, hwords, hsize⟩ := events_defineLabel hdefine
          obtain ⟨hstatement, hlabels⟩ := events_addStatement h
          refine ⟨line, rfl, ?_, by rw [hlabels, hsize]⟩
          have hok : (Logged.ofExcept (Line.parse isa number text)).result = .ok line := by
            rw [Logged.ofExcept, Line.parse, hparse]
          rw [Scan.line, Logged.events_bind_of_ok hok, Logged.events_bind_of_ok hdefine, hlabel,
            hstatement, hwords]
          rfl

theorem events_lines_append {texts : List (List Char)}
    (h : (s.lines isa number texts).result = .ok next) (others : List (List Char)) :
    (s.lines isa number (texts ++ others)).events =
      (s.lines isa number texts).events ++
        (next.lines isa (number + texts.length) others).events := by
  induction texts generalizing s number with
  | nil =>
      cases h
      rfl
  | cons text rest ih =>
      simp only [lines, Logged.result_bind] at h
      cases hline : (s.line isa number text).result with
      | error e =>
          rw [hline] at h
          cases h
      | ok first =>
          rw [hline] at h
          have hnumber : number + 1 + rest.length = number + (rest.length + 1) := by omega
          rw [List.cons_append, lines, lines, Logged.events_bind_of_ok hline,
            Logged.events_bind_of_ok hline, ih h, List.length_cons, hnumber, List.append_assoc]

/-- The scan of a text reports the events of its program, and every label it
defines is a new one. -/
theorem events_scan {texts : List (List Char)} (h : (start.lines isa 1 texts).result = .ok s) :
    (Code.ofTexts isa texts).length = texts.length ∧
      (start.lines isa 1 texts).events = (Code.ofTexts isa texts).scanEvents isa ∧
      s.labels.size = (Code.ofTexts isa texts).labels.length := by
  induction texts using List.reverseRecOn generalizing s with
  | nil =>
      cases h
      exact ⟨rfl, rfl, rfl⟩
  | append_singleton texts text ih =>
      rw [result_lines_append] at h
      cases habove : (start.lines isa 1 texts).result with
      | error e =>
          rw [habove] at h
          cases h
      | ok above =>
          have hsingle : above.lines isa (1 + texts.length) [text] =
              above.line isa (texts.length + 1) text := by
            rw [Nat.add_comm]
            exact Logged.bind_pure _
          rw [habove] at h
          simp only [Except.bind, hsingle] at h
          obtain ⟨hlength, hevents, hsize⟩ := ih habove
          obtain ⟨line, hparse, hline, hlabel⟩ := events_line h
          have hcode : Code.ofTexts isa (texts ++ [text]) = Code.ofTexts isa texts ++ [line] := by
            simp [Code.ofTexts, hparse]
          rw [hcode, events_lines_append habove, hsingle, hevents, hline,
            (describes_of_lines habove).length_words]
          refine ⟨by simp [hlength], ?_, ?_⟩
          · rw [Code.scanEvents_concat, hlength]
          · rw [hlabel, hsize, Code.labels_concat, List.length_append]

end Scan

/-! ## The events of the patch pass -/

/-- The event of a reference whose label is known. -/
def Reference.event (labels : LabelTable) (r : Reference) : Event :=
  .patched r.label r.address ((labels.get? r.label).getD 0)
    (displacement ((labels.get? r.label).getD 0) r.address)

/-- A pass that succeeds reports one patch for each reference. -/
theorem events_fixup {disp : Field} {labels : LabelTable} {words : List Word}
    {references : List Reference} (h : (fixup disp labels words references).outcome = .ok ()) :
    (fixup disp labels words references).events = references.map (Reference.event labels) := by
  fun_induction fixup disp labels words references with
  | case1 => rfl
  | case2 => cases h
  | case3 => cases h
  | case4 words r rest target htarget word hword offset after ih =>
      rw [List.map_cons, Reference.event, htarget, ← ih h]
      rfl

/-- The patch pass does what its events tell, also when it fails. -/
theorem words_fixup_eq_foldl (disp : Field) (labels : LabelTable) (words : List Word)
    (references : List Reference) :
    (fixup disp labels words references).words =
      ((fixup disp labels words references).events.filterMap Event.patch?).foldl
        (Event.writeOffset disp) words := by
  fun_induction fixup disp labels words references with
  | case1 => rfl
  | case2 => rfl
  | case3 => rfl
  | case4 words r rest target htarget word hword offset after ih =>
      have hwrite : Event.writeOffset disp words (r.address, offset) =
          words.set r.address (disp.replace word (lowWord offset)) := by
        rw [Event.writeOffset, List.modify_eq_set_getElem?, hword]
        rfl
      show after.words = (after.events.filterMap Event.patch?).foldl (Event.writeOffset disp)
        (Event.writeOffset disp words (r.address, offset))
      rw [hwrite]
      exact ih

theorem encodings_map_event (labels : LabelTable) (references : List Reference) :
    (references.map (Reference.event labels)).filterMap Event.encoding? = [] := by
  rw [List.filterMap_map, List.filterMap_eq_nil_iff]
  exact fun r _ => rfl

theorem count_map_event (labels : LabelTable) (references : List Reference) (kind : Event.Kind) :
    Event.count kind (references.map (Reference.event labels)) =
      if kind = .patched then references.length else 0 := by
  have hkinds : (references.map (Reference.event labels)).map Event.kind =
      List.replicate references.length .patched := by
    rw [List.map_map]
    exact List.map_const'
  rw [Event.count, hkinds, List.count_replicate]
  exact if_congr (by rw [beq_iff_eq, eq_comm]) rfl rfl

/-! ## Branches and their patches -/

theorem forall₂_filter_filterMap {α β : Type} {R : α → β → Prop} {test : α → Bool}
    {f : α → Option β} {as : List α}
    (hpos : ∀ a ∈ as, test a = true → ∃ b, f a = some b ∧ R a b)
    (hneg : ∀ a ∈ as, test a = false → f a = none) :
    List.Forall₂ R (as.filter test) (as.filterMap f) := by
  induction as with
  | nil => exact .nil
  | cons a rest ih =>
      rw [List.forall_mem_cons] at hpos hneg
      have hrest := ih hpos.2 hneg.2
      cases htest : test a with
      | true =>
          obtain ⟨b, hb, hab⟩ := hpos.1 htest
          rw [List.filter_cons_of_pos htest, List.filterMap_cons_some hb]
          exact .cons hab hrest
      | false =>
          rw [List.filter_cons_of_neg (by simp [htest]), List.filterMap_cons_none (hneg.1 htest)]
          exact hrest

/-- A statement that can be encoded is of the branch format and has a label to go to,
or neither. -/
theorem Statement.isBranch_cases {isa : InstructionSet} {st : Statement} {k : Nat}
    (h : ∃ encoded, isa.encode st.mnemonic st.operands k = .ok encoded) :
    (st.isBranch isa = true ∧ ∃ name, st.operands = [.plain name] ∧
        st.branchLabel? isa = some name) ∨
      st.isBranch isa = false ∧ st.branchLabel? isa = none := by
  obtain ⟨encoded, hencode⟩ := h
  rcases InstructionSet.encode_cases hencode with
    ⟨i, name, hlookup, hformat, hoperands, _, hlabel, _⟩ | ⟨i, _, hlookup, hformat, _, hlabel, _⟩
  · left
    exact ⟨by simp [isBranch, hlookup, hformat], name, hoperands, hlabel⟩
  · right
    exact ⟨by simp [isBranch, hlookup, hformat], hlabel⟩

namespace Scan.Describes

variable {isa : InstructionSet} {p : Code} {s : Scan}

/-- Where all labels are known, each branch of the program has its patch. -/
theorem forall₂_reportsPatch (h : s.Describes isa p) (hnodup : p.labels.Nodup)
    (hdefined : ∀ r ∈ s.pending, s.labels.get? r.label ≠ none) :
    List.Forall₂ (fun (branch : Statement × Nat) (event : Event) =>
        event.ReportsPatch (p.scanEvents isa) branch.1 branch.2)
      (p.statements.zipIdx.filter fun branch => branch.1.isBranch isa)
      (s.pending.map (Reference.event s.labels)) := by
  have hpending : s.pending.map (Reference.event s.labels) =
      p.statements.zipIdx.filterMap fun branch =>
        (branch.1.branchLabel? isa).map fun name => Reference.event s.labels ⟨name, branch.2⟩ := by
    rw [h.pending, Code.branches, List.map_filterMap]
    simp only [Option.map_map]
    rfl
  rw [hpending]
  apply forall₂_filter_filterMap
  · intro branch hmem hbranch
    obtain ⟨st, k⟩ := branch
    have hst := List.mk_mem_zipIdx_iff_getElem?.1 hmem
    rcases Statement.isBranch_cases (h.encodes k st hst) with
      ⟨_, name, hoperands, hlabel⟩ | ⟨hno, _⟩
    · have hreference : (⟨name, k⟩ : Reference) ∈ s.pending := by
        rw [h.pending]
        exact Code.mem_branches_iff.2 ⟨st, hst, hlabel⟩
      obtain ⟨target, htarget⟩ := Option.ne_none_iff_exists'.1 (hdefined _ hreference)
      have haddress : p.address? name = some target := (h.labels name).symm.trans htarget
      obtain ⟨line, hline⟩ := Code.exists_labelDefined isa hnodup haddress
      refine ⟨Reference.event s.labels ⟨name, k⟩, by rw [hlabel, Option.map_some], name, target,
        line, displacement target k, hoperands, ?_, hline, displacement_eq_ofInt target k⟩
      rw [Reference.event, htarget, Option.getD_some]
    · rw [hno] at hbranch
      cases hbranch
  · intro branch hmem hbranch
    obtain ⟨st, k⟩ := branch
    have hst := List.mk_mem_zipIdx_iff_getElem?.1 hmem
    rcases Statement.isBranch_cases (h.encodes k st hst) with ⟨hyes, _⟩ | ⟨_, hnone⟩
    · rw [hyes] at hbranch
      cases hbranch
    · rw [hnone, Option.map_none]

/-- In a program of less than `2 ^ 63` statements no offset wraps around. -/
theorem toInt_offset (h : s.Describes isa p)
    (hdefined : ∀ r ∈ s.pending, s.labels.get? r.label ≠ none)
    (hlength : p.statements.length < 2 ^ 63) {name : String} {k target : Nat} {offset : Int64}
    (hevent : Event.patched name k target offset ∈ s.pending.map (Reference.event s.labels)) :
    offset.toInt = target - (k + 1) := by
  obtain ⟨r, hr, hreference⟩ := List.mem_map.1 hevent
  obtain ⟨t, ht⟩ := Option.ne_none_iff_exists'.1 (hdefined r hr)
  have hle := Code.address?_le ((h.labels r.label).symm.trans ht)
  have hlt := h.address_lt r hr
  rw [h.length_words] at hlt
  rw [Reference.event, ht, Option.getD_some, Event.patched.injEq] at hreference
  obtain ⟨_, rfl, rfl, rfl⟩ := hreference
  rw [displacement_eq_ofInt, Int64.toInt_ofInt_of_le]
  · omega
  · omega

end Scan.Describes

/-! ## The whole log -/

variable {isa : InstructionSet} {source : String} {s : Scan}

/-- The log of a run that gets past the patch pass, part by part. -/
theorem assemblyEvents_eq
    (hscan : (Scan.start.lines isa 1 (Text.lines source.toList)).result = .ok s)
    (hfixup : (fixup isa.layout.disp s.labels s.words s.pending).outcome = .ok ()) :
    assemblyEvents isa source =
      (Code.ofSource isa source).scanEvents isa ++ s.pending.map (Reference.event s.labels) ++
        [.assembled isa.name s.words.length s.labels.size s.pending.length] := by
  have hpatched : (fixup isa.layout.disp s.labels s.words s.pending).logged.result =
      .ok (fixup isa.layout.disp s.labels s.words s.pending).words := by
    rw [Fixup.logged, hfixup]
    rfl
  rw [assemblyEvents, assembleLogged, Logged.events_bind_of_ok hscan,
    Logged.events_bind_of_ok hpatched, Logged.events_bind_of_ok rfl, (Scan.events_scan hscan).2.1,
    length_words_fixup, Fixup.logged, events_fixup hfixup, List.append_assoc]
  rfl

/-- The words of a run that gets past the patch pass go into the memory. -/
theorem assemble_eq_ofWords
    (hscan : (Scan.start.lines isa 1 (Text.lines source.toList)).result = .ok s)
    (hfixup : (fixup isa.layout.disp s.labels s.words s.pending).outcome = .ok ()) :
    assemble isa source =
      Image.ofWords (fixup isa.layout.disp s.labels s.words s.pending).words isa.memoryWords := by
  rw [assemble, assembleLogged, Logged.result_bind, hscan]
  simp only [Except.bind, Logged.result_bind, Fixup.logged, hfixup]
  rfl

/-- The last event counts the others. -/
theorem count_assemblyEvents
    (hscan : (Scan.start.lines isa 1 (Text.lines source.toList)).result = .ok s)
    (hfixup : (fixup isa.layout.disp s.labels s.words s.pending).outcome = .ok ()) :
    Event.count .encoded (assemblyEvents isa source) = s.words.length ∧
      Event.count .labelDefined (assemblyEvents isa source) = s.labels.size ∧
      Event.count .patched (assemblyEvents isa source) = s.pending.length := by
  obtain ⟨hencoded, hlabels, hpatched⟩ := (Code.ofSource isa source).count_scanEvents isa
  have hwords := (Scan.describes_of_lines hscan).length_words
  have hsize := (Scan.events_scan hscan).2.2
  rw [assemblyEvents_eq hscan hfixup]
  simp only [Event.count_append, count_map_event, hencoded, hlabels, hpatched]
  refine ⟨?_, ?_, ?_⟩
  · exact hwords.symm
  · exact hsize.symm
  · exact Nat.zero_add _

/-- The encoded words of the log are those that the scan left. -/
theorem encodings_assemblyEvents
    (hscan : (Scan.start.lines isa 1 (Text.lines source.toList)).result = .ok s)
    (hfixup : (fixup isa.layout.disp s.labels s.words s.pending).outcome = .ok ()) :
    ((assemblyEvents isa source).filterMap Event.encoding?).map Prod.fst =
        List.range s.words.length ∧
      ((assemblyEvents isa source).filterMap Event.encoding?).map Prod.snd = s.words := by
  have hencodings : (assemblyEvents isa source).filterMap Event.encoding? =
      (Code.ofSource isa source).statements.mapIdx fun k st => (k, encodedWord isa k st) := by
    rw [assemblyEvents_eq hscan hfixup, List.filterMap_append, List.filterMap_append,
      Code.encodings_scanEvents, encodings_map_event, List.append_nil]
    exact List.append_nil _
  have h := Scan.describes_of_lines hscan
  rw [hencodings, h.length_words, h.words]
  constructor
  · exact List.ext_getElem (by simp [Code.ofSource]) (by simp)
  · exact List.ext_getElem (by simp [Code.ofSource]) (by simp [Code.ofSource])

/-- Replaying the log gives the words that the patch pass left. -/
theorem replay_assemblyEvents
    (hscan : (Scan.start.lines isa 1 (Text.lines source.toList)).result = .ok s)
    (hfixup : (fixup isa.layout.disp s.labels s.words s.pending).outcome = .ok ()) :
    Event.replay isa.layout.disp (assemblyEvents isa source) =
      (fixup isa.layout.disp s.labels s.words s.pending).words := by
  have hpatches : (assemblyEvents isa source).filterMap Event.patch? =
      (s.pending.map (Reference.event s.labels)).filterMap Event.patch? := by
    rw [assemblyEvents_eq hscan hfixup, List.filterMap_append, List.filterMap_append,
      Code.patches_scanEvents, List.nil_append]
    exact List.append_nil _
  rw [Event.replay, hpatches, (encodings_assemblyEvents hscan hfixup).2, words_fixup_eq_foldl,
    events_fixup hfixup]

/-- The log explains the image.  Let the scan and the patch pass of a source succeed.
The log then starts with the events of its lines in order, where the encoded words
have the addresses 0, 1, 2 and so on.  Behind them stands one patch for each branch,
in order, with the address that its label was given and the distance to it; in a
text that a 64-bit memory can hold the distance is exact.  The last event counts the
others, and it stands there also if the words turn out not to fit the memory.

Replaying the log gives the words that the patch pass left, and these are what is
put into the memory. -/
theorem assemblyEvents_explain
    (hscan : (Scan.start.lines isa 1 (Text.lines source.toList)).result = .ok s)
    (hfixup : (fixup isa.layout.disp s.labels s.words s.pending).outcome = .ok ()) :
    (Code.ofSource isa source).ReadFrom isa (Text.lines source.toList) ∧
      ∃ patches,
        assemblyEvents isa source =
            (Code.ofSource isa source).scanEvents isa ++ patches ++
              [.assembled isa.name (Event.count .encoded (assemblyEvents isa source))
                (Event.count .labelDefined (assemblyEvents isa source))
                (Event.count .patched (assemblyEvents isa source))] ∧
          ((assemblyEvents isa source).filterMap Event.encoding?).map Prod.fst =
            List.range (Event.count .encoded (assemblyEvents isa source)) ∧
          List.Forall₂ (fun (branch : Statement × Nat) (event : Event) =>
              event.ReportsPatch ((Code.ofSource isa source).scanEvents isa) branch.1 branch.2)
            ((Code.ofSource isa source).statements.zipIdx.filter fun branch =>
              branch.1.isBranch isa)
            patches ∧
          (source.length < 2 ^ 63 → ∀ name k target offset,
            Event.patched name k target offset ∈ patches → offset.toInt = target - (k + 1)) ∧
          Event.replay isa.layout.disp (assemblyEvents isa source) =
            (fixup isa.layout.disp s.labels s.words s.pending).words ∧
          assemble isa source =
            Image.ofWords (Event.replay isa.layout.disp (assemblyEvents isa source))
              isa.memoryWords := by
  have hlog := assemblyEvents_eq hscan hfixup
  have h := Scan.describes_of_lines hscan
  obtain ⟨hread, hnodup, _⟩ := scanFault?_eq_none_iff.1 (Scan.scanFault?_of_lines hscan)
  have hdefined := (outcome_fixup_eq_ok_iff h.address_lt).1 hfixup
  obtain ⟨hencoded, hlabels, hpatched⟩ := count_assemblyEvents hscan hfixup
  have hreplay := replay_assemblyEvents hscan hfixup
  refine ⟨?_, s.pending.map (Reference.event s.labels), ?_, ?_, ?_, ?_, hreplay, ?_⟩
  · exact Code.readFrom_ofTexts hread
  · rw [hencoded, hlabels, hpatched]
    exact hlog
  · rw [hencoded]
    exact (encodings_assemblyEvents hscan hfixup).1
  · exact h.forall₂_reportsPatch hnodup hdefined
  · intro hlength name k target offset hevent
    have hstatements := Code.length_statements_le isa source
    exact h.toInt_offset hdefined (Nat.lt_of_le_of_lt hstatements hlength) hevent
  · rw [hreplay]
    exact assemble_eq_ofWords hscan hfixup

/-- One branch ahead and one back.  The memory holds one of the two words, so there
is no image, but there is a full log. -/
theorem assemblyEvents_explain_branches :
    assemblyEvents (InstructionSet.extended.withCapacity 1) "loop: b done\n bne loop\ndone:" =
        [.labelDefined "loop" 0 1, .encoded 1 0 0x20000000#32 "b",
          .encoded 2 1 0x22000000#32 "bne", .labelDefined "done" 2 3,
          .patched "done" 0 2 1, .patched "loop" 1 0 (-2), .assembled "extended" 2 2 2] ∧
      Event.replay (InstructionSet.extended.withCapacity 1).layout.disp
          (assemblyEvents (InstructionSet.extended.withCapacity 1)
            "loop: b done\n bne loop\ndone:") = [0x20000001#32, 0x2200FFFE#32] ∧
      assemble (InstructionSet.extended.withCapacity 1) "loop: b done\n bne loop\ndone:" =
        .error (.programTooLarge 2 1) := by
  have hscan : (Scan.start.lines (InstructionSet.extended.withCapacity 1) 1
      (Text.lines "loop: b done\n bne loop\ndone:".toList)).result =
        .ok ⟨⟨[("done", 2), ("loop", 0)]⟩, [⟨"done", 0⟩, ⟨"loop", 1⟩],
          [0x20000000#32, 0x22000000#32]⟩ := by
    rfl
  obtain ⟨_, patches, _, _, _, _, hreplay, hassemble⟩ := assemblyEvents_explain hscan rfl
  refine ⟨by rfl, hreplay.trans (by rfl), hassemble.trans ?_⟩
  rw [hreplay]
  rfl

end Asm32
