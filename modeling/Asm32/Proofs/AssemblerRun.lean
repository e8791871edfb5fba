import Asm32.Command.Assembler
import Asm32.Proofs.FileTrees
import Asm32.Proofs.HexImage
import Asm32.Proofs.JsonRecords
import Asm32.Proofs.Linking
import Asm32.Proofs.Violations

/-!
# Runs of the assembler program

A run writes one file or none.  `Ready` says what has to be found before
anything is assembled: an instruction set, valid with the memory size asked for,
and a source.

* `run_loadSet_cases` and `run_build_cases` say what each part of a run can do.
  Neither of them writes, so a run that ends there leaves all files as they are.
* Only a failure to assemble is reported as a parse error
  (`line_eq_parseError_iff`).
* A run breaks off with a report of its own if the check of its instruction set
  does.  That happens when the set is loaded or not at all: a set that has passed
  the check cannot break it off with another memory size
  (`validate_resize_ne_overflow`).
* The image goes to one place, which may be that of a file that has been read
  (`run_all_or_nothing`).
-/

namespace Asm32

namespace SetSource

variable {tree : FileTree} {source : SetSource} {base : InstructionSet}

/-- Only instruction sets that pass the check are found. -/
theorem Gives.consistent (h : source.Gives tree base) : base.Consistent := by
  rw [← InstructionSet.validate_eq_ok_iff]
  cases h with
  | builtin variant => exact InstructionSet.validate_ofVariant variant
  | file _ hdescription => exact InstructionSet.validate_of_ofDescription hdescription

theorem Gives.unique {other : InstructionSet} (h : source.Gives tree base)
    (hother : source.Gives tree other) : other = base := by
  obtain ⟨_, _, hgives, _⟩ := source.exists_run_load tree
  exact Except.ok.inj (((hgives _).2 hother).symm.trans ((hgives _).2 h))

theorem Gives.not_breaksOff (h : source.Gives tree base) : ¬source.BreaksOff tree := by
  obtain ⟨_, _, hgives, hbreaks⟩ := source.exists_run_load tree
  intro hoff
  obtain ⟨name, hloaded⟩ := hbreaks.2 hoff
  cases ((hgives _).2 h).symm.trans hloaded

theorem breaksOff_of_description {variant : InstructionSet.Variant} {path : String}
    {isa : InstructionSet} {name : FieldName} (hread : tree.read path = .ok isa.description)
    (hcheck : isa.validate = .error (.overflow name)) : BreaksOff tree ⟨variant, some path⟩ := by
  refine .file hread ?_ hcheck
  rw [InstructionSet.description, Json.parse?_of_spells (Json.spells_compact isa.whole_toJson),
    Option.bind_some, isa.ofJson?_toJson]

end SetSource

namespace Assembler

/-- The options choose an instruction set that is valid with the memory size
asked for, and there is a source. -/
structure Ready (tree : FileTree) (options : Options) (base : InstructionSet) (source : String) :
    Prop where
  gives : options.isa.Gives tree base
  validated : (options.resize base).validate = .ok ()
  reads : tree.read options.source = .ok source

variable {tree : FileTree} {options : Options}

theorem memoryWords_resize (options : Options) (base : InstructionSet) :
    (options.resize base).memoryWords = options.capacity.getD base.memoryWords := by
  unfold Options.resize
  cases options.capacity <;> rfl

theorem layout_resize (options : Options) (base : InstructionSet) :
    (options.resize base).layout = base.layout := by
  unfold Options.resize
  cases options.capacity <;> rfl

/-- The fields of a consistent set all have an end, whatever the memory. -/
theorem validate_resize_ne_overflow {base : InstructionSet} (h : base.Consistent)
    (options : Options) (name : FieldName) :
    (options.resize base).validate ≠ .error (.overflow name) := by
  intro hoverflow
  obtain ⟨_, hlarge⟩ := InstructionSet.holds_of_validate hoverflow
  obtain ⟨_, hinside⟩ := Field.fitsWord_iff.1 (h.fits name)
  rw [layout_resize] at hlarge
  omega

theorem Ready.unique {base base' : InstructionSet} {source source' : String}
    (h : Ready tree options base source) (h' : Ready tree options base' source') :
    base' = base ∧ source' = source :=
  ⟨h.gives.unique h'.gives, Except.ok.inj (h'.reads.symm.trans h.reads)⟩

/-- A failure is reported as a parse error if it is one of assembling, and then
with its message. -/
theorem line_eq_parseError_iff {failure : Failure} {message : String} :
    failure.line = "Parse error: " ++ message ++ "\n" ↔
      ∃ cause, failure = .assembly cause ∧ cause.message = message := by
  constructor
  · intro hline
    unfold Failure.line at hline
    -- The other failures start with another letter.
    have hfirst := congrArg (fun line => line.toList.head?) hline
    cases failure with
    | assembly cause => exact ⟨cause, rfl, by simpa using hline⟩
    | load | checkFailed | read | write => simp at hfirst
  · rintro ⟨cause, rfl, rfl⟩
    rfl

/-- A failure that is not the overflow of a check is reported by its line. -/
theorem report_eq_failure {failure : Failure}
    (hload : ∀ path name, failure ≠ .load path (.rejected (.checkFailed (.overflow name))))
    (hcheck : ∀ name, failure ≠ .checkFailed (.overflow name)) :
    failure.report = .failure failure.line := by
  unfold Failure.report
  split
  next path name => exact absurd rfl (hload path name)
  next name => exact absurd rfl (hcheck name)
  next => rfl

/-! ## The parts of a run -/

/-- A failure before anything is assembled, with the report that it ends in. -/
structure FailsEarly (tree : FileTree) (options : Options) (failure : Failure) : Prop where
  early : ∀ cause, failure ≠ .assembly cause
  broken : options.isa.BreaksOff tree → failure.report = .broken "attempt to add with overflow"
  reported : ¬options.isa.BreaksOff tree → failure.report = .failure failure.line

/-- Loading ends with a valid instruction set, or there is none to be found. -/
theorem run_loadSet_cases (tree : FileTree) (options : Options) :
    (∃ base, options.isa.Gives tree base ∧ (options.resize base).validate = .ok () ∧
        (loadSet FileTree.access options).run tree = (.ok (options.resize base), tree)) ∨
      (∃ failure, FailsEarly tree options failure ∧
        (loadSet FileTree.access options).run tree = (.error failure, tree)) ∧
      ∀ base, options.isa.Gives tree base → (options.resize base).validate ≠ .ok () := by
  obtain ⟨loaded, hrun, hgives, hbreaks⟩ := options.isa.exists_run_load tree
  rw [loadSet, FileTree.run_bind hrun]
  cases loaded with
  | error e =>
      refine .inr ⟨⟨_, ⟨by simp, fun hoff => ?_, fun hnot => ?_⟩, rfl⟩, fun base hbase => ?_⟩
      · obtain ⟨name, ⟨⟩⟩ := hbreaks.2 hoff
        rfl
      · refine report_eq_failure (fun path name hload => ?_) (by simp)
        cases hload
        exact hnot (hbreaks.1 ⟨name, rfl⟩)
      · cases (hgives base).2 hbase
  | ok base =>
      have hbase := (hgives base).1 rfl
      cases hvalid : (options.resize base).validate with
      | ok =>
          refine .inl ⟨base, hbase, hvalid, ?_⟩
          simp only [hvalid]
          rfl
      | error e =>
          refine .inr ⟨⟨.checkFailed e, ⟨by simp, fun hoff => ?_, fun _ => ?_⟩, ?_⟩, ?_⟩
          · exact absurd hoff hbase.not_breaksOff
          · refine report_eq_failure (by simp) (fun name hcheck => ?_)
            cases hcheck
            exact validate_resize_ne_overflow hbase.consistent options name hvalid
          · simp only [hvalid]
            rfl
          · intro base' hbase'
            rw [hbase.unique hbase', hvalid]
            simp

/-- Building ends with what the source assembles to, or something is missing. -/
theorem run_build_cases (tree : FileTree) (options : Options) :
    (∃ base source, Ready tree options base source ∧
        (build FileTree.access options).run tree =
          ((assemble (options.resize base) source).mapError .assembly, tree)) ∨
      (∃ failure, FailsEarly tree options failure ∧
        (build FileTree.access options).run tree = (.error failure, tree)) ∧
      ∀ base source, ¬Ready tree options base source := by
  rcases run_loadSet_cases tree options with ⟨base, hgives, hvalid, hrun⟩ |
    ⟨⟨failure, hfails, hrun⟩, hnone⟩
  · rw [build, FileTree.run_bind hrun]
    dsimp only
    rw [FileTree.run_bind (tree.run_read _)]
    cases hread : tree.read options.source with
    | ok source => exact .inl ⟨base, source, ⟨hgives, hvalid, hread⟩, rfl⟩
    | error e =>
        refine .inr ⟨⟨_, ⟨by simp, fun hoff => ?_, fun _ => rfl⟩, rfl⟩, ?_⟩
        · exact absurd hoff hgives.not_breaksOff
        · intro base' source hready
          rw [hready.reads] at hread
          cases hread
  · rw [build, FileTree.run_bind hrun]
    refine .inr ⟨⟨failure, hfails, rfl⟩, ?_⟩
    intro base source hready
    exact hnone base hready.gives hready.validated

theorem run_runOptions_of_error {failure : Failure}
    (h : (build FileTree.access options).run tree = (.error failure, tree)) :
    (runOptions FileTree.access options).run tree = (failure.report, tree) := by
  have hexecute : (execute FileTree.access options).run tree = (.error failure, tree) := by
    rw [execute, FileTree.run_bind h]
    rfl
  rw [runOptions, FileTree.run_bind hexecute]
  rfl

theorem run_runOptions_of_ok {image : Image} {after : FileTree}
    (h : (build FileTree.access options).run tree = (.ok image, tree))
    (hwrite : tree.write options.image image.hex = .ok after) :
    (runOptions FileTree.access options).run tree = (.success "", after) := by
  have hexecute : (execute FileTree.access options).run tree = (.ok (), after) := by
    rw [execute, FileTree.run_bind h]
    dsimp only
    rw [StateT.run_bind, FileTree.run_write hwrite]
    rfl
  rw [runOptions, StateT.run_bind, hexecute]
  rfl

/-! ## Whole runs -/

/-- A line of hex text for each word of the memory. -/
theorem length_lines_hex {isa : InstructionSet} {source : String} {image : Image}
    (h : assemble isa source = .ok image) :
    (Text.lines image.hex.toList).length = isa.memoryWords.toNat := by
  rw [Image.hex, lines_hexText, List.length_map, Image.length_padded,
    (assemble_eq_ok_iff.1 h).2.2.2]

/-- A run that does not get as far as an image changes no file.  It reports a
parse error exactly if it failed to assemble, and breaks off exactly if the check
of its instruction set does. -/
theorem run_of_no_image
    (hnone : ∀ base source image, Ready tree options base source →
      assemble (options.resize base) source ≠ .ok image) :
    (¬options.isa.BreaksOff tree →
      ∃ err, (runOptions FileTree.access options).run tree = (⟨1, .text "", .text err⟩, tree) ∧
        ∀ message, err = "Parse error: " ++ message ++ "\n" ↔
          ∃ base source cause, Ready tree options base source ∧
            assemble (options.resize base) source = .error cause ∧ cause.message = message) ∧
      (options.isa.BreaksOff tree →
        (runOptions FileTree.access options).run tree =
          (⟨101, .text "", .breakdown "attempt to add with overflow"⟩, tree)) := by
  rcases run_build_cases tree options with ⟨base, source, hready, hrun⟩ |
    ⟨⟨failure, hfails, hrun⟩, hmissing⟩
  · refine ⟨fun _ => ?_, fun hoff => absurd hoff hready.gives.not_breaksOff⟩
    cases hassemble : assemble (options.resize base) source with
    | ok image => exact absurd hassemble (hnone base source image hready)
    | error cause =>
        rw [hassemble] at hrun
        refine ⟨_, run_runOptions_of_error hrun, fun message => ?_⟩
        rw [line_eq_parseError_iff]
        constructor
        · rintro ⟨cause', hsame, rfl⟩
          obtain rfl := Failure.assembly.inj hsame
          exact ⟨base, source, cause, hready, hassemble, rfl⟩
        · rintro ⟨base', source', cause', hready', hassemble', rfl⟩
          obtain ⟨rfl, rfl⟩ := hready.unique hready'
          rw [hassemble, Except.error.injEq] at hassemble'
          exact ⟨cause, rfl, by rw [hassemble']⟩
  · have hreport := run_runOptions_of_error hrun
    refine ⟨fun hnot => ⟨failure.line, ?_, fun message => ?_⟩, fun hoff => ?_⟩
    · rw [hreport, hfails.reported hnot]
      rfl
    · rw [line_eq_parseError_iff]
      constructor
      · rintro ⟨cause, hsame, _⟩
        exact absurd hsame (hfails.early cause)
      · rintro ⟨base, source, _, hready, _⟩
        exact absurd hready (hmissing base source)
    · rw [hreport, hfails.broken hoff]
      rfl

/-- A run that gets as far as an image writes it, if it can be written. -/
theorem run_of_image {base : InstructionSet} {source : String} {image : Image} {after : FileTree}
    (hready : Ready tree options base source)
    (hassemble : assemble (options.resize base) source = .ok image)
    (hwrite : tree.write options.image image.hex = .ok after) :
    (runOptions FileTree.access options).run tree = (⟨0, .text "", .text ""⟩, after) := by
  rcases run_build_cases tree options with ⟨base', source', hready', hrun⟩ | ⟨_, hmissing⟩
  · obtain ⟨rfl, rfl⟩ := hready.unique hready'
    rw [hassemble] at hrun
    exact run_runOptions_of_ok hrun hwrite
  · exact absurd hready (hmissing base source)

/-- A run writes the whole image or nothing.  Without an image all files are as
before: the run fails, and the report is a parse error exactly if the source did
not assemble; where the check of the instruction set itself breaks off, so does
the run.  With an image that can be written it succeeds, and the file by the path
of the image holds the hex text of the image, with as many lines as the memory has
words; no other place has changed, also if the path is that of the source or of
the instruction set. -/
theorem run_all_or_nothing (tree : FileTree) (options : Options) :
    ((∀ base source image, Ready tree options base source →
        assemble (options.resize base) source ≠ .ok image) →
      (¬options.isa.BreaksOff tree →
        ∃ err, (runOptions FileTree.access options).run tree = (⟨1, .text "", .text err⟩, tree) ∧
          ∀ message, err = "Parse error: " ++ message ++ "\n" ↔
            ∃ base source cause, Ready tree options base source ∧
              assemble (options.resize base) source = .error cause ∧ cause.message = message) ∧
      (options.isa.BreaksOff tree →
        (runOptions FileTree.access options).run tree =
          (⟨101, .text "", .breakdown "attempt to add with overflow"⟩, tree))) ∧
      ∀ base source image after, Ready tree options base source →
        assemble (options.resize base) source = .ok image →
        tree.write options.image image.hex = .ok after →
        (runOptions FileTree.access options).run tree = (⟨0, .text "", .text ""⟩, after) ∧
          after.read options.image = .ok image.hex ∧
          (Text.lines image.hex.toList).length =
            (options.capacity.getD base.memoryWords).toNat ∧
          ∃ place, after.locate options.image = .ok (.file place image.hex.toUTF8) ∧
            ∀ other, other ≠ place → after.entry? other = tree.entry? other := by
  refine ⟨run_of_no_image, ?_⟩
  intro base source image after hready hassemble hwrite
  obtain ⟨hread, hplace⟩ := FileTree.read_of_write hwrite
  refine ⟨run_of_image hready hassemble hwrite, hread, ?_, hplace⟩
  rw [length_lines_hex hassemble, memoryWords_resize]

/-- A source that is overwritten by its own image, by another path; one that is
not because it goes to a label that is not defined; and a description with a field
at the last of the 32-bit numbers. -/
theorem run_all_or_nothing_loop :
    (∃ after,
        (runOptions FileTree.access ⟨"/w/a.s", "../w/a.s", ⟨.basic, none⟩, some 2⟩).run
            ⟨[(["w"], .directory), (["w", "a.s"], .file "a: j a\n".toUTF8)], ["w"]⟩ =
          (⟨0, .text "", .text ""⟩, after) ∧
          after.read "../w/a.s" = .ok "4000ffff\n00000000\n") ∧
      (runOptions FileTree.access ⟨"/w/a.s", "../w/a.s", ⟨.basic, none⟩, some 2⟩).run
          ⟨[(["w"], .directory), (["w", "a.s"], .file "a: j b\n".toUTF8)], ["w"]⟩ =
        (⟨1, .text "", .text "Parse error: undefined label `b'\n"⟩,
          ⟨[(["w"], .directory), (["w", "a.s"], .file "a: j b\n".toUTF8)], ["w"]⟩) ∧
      ∃ text : String,
        (runOptions FileTree.access ⟨"a.s", "a.hex", ⟨.basic, some "set"⟩, none⟩).run
            ⟨[(["set"], .file text.toUTF8)], []⟩ =
          (⟨101, .text "", .breakdown "attempt to add with overflow"⟩,
            ⟨[(["set"], .file text.toUTF8)], []⟩) := by
  refine ⟨?_, ?_, ?_⟩
  · have hready : Ready ⟨[(["w"], .directory), (["w", "a.s"], .file "a: j a\n".toUTF8)], ["w"]⟩
        ⟨"/w/a.s", "../w/a.s", ⟨.basic, none⟩, some 2⟩ .basic "a: j a\n" :=
      ⟨.builtin .basic, rfl, rfl⟩
    obtain ⟨hrun, hread, _⟩ :=
      (run_all_or_nothing _ _).2 _ _ ⟨[0x4000ffff#32], 2, by decide⟩ _ hready rfl rfl
    exact ⟨_, hrun, hread⟩
  · have hready : Ready ⟨[(["w"], .directory), (["w", "a.s"], .file "a: j b\n".toUTF8)], ["w"]⟩
        ⟨"/w/a.s", "../w/a.s", ⟨.basic, none⟩, some 2⟩ .basic "a: j b\n" :=
      ⟨.builtin .basic, rfl, rfl⟩
    have hassemble : assemble (InstructionSet.basic.withCapacity 2) "a: j b\n" =
        .error (.undefinedLabel "b") := rfl
    have hfails := (run_all_or_nothing _ _).1 <| by
      intro base source image hready' hok
      obtain ⟨rfl, rfl⟩ := hready.unique hready'
      cases hassemble.symm.trans hok
    obtain ⟨err, hrun, hmessage⟩ := hfails.1 hready.gives.not_breaksOff
    rw [hrun, (hmessage _).2 ⟨_, _, _, hready, hassemble, rfl⟩]
    rfl
  · have hcheck : InstructionSet.validate
        { InstructionSet.basic with
          layout := { InstructionSet.basic.layout with disp := ⟨4294967295, 1⟩ } } =
        .error (.overflow .disp) := rfl
    have hoff : SetSource.BreaksOff ⟨[(["set"], .file (InstructionSet.description _).toUTF8)], []⟩
        ⟨.basic, some "set"⟩ :=
      SetSource.breaksOff_of_description (FileTree.read_of_locate rfl rfl) hcheck
    refine ⟨_, ((run_all_or_nothing _ _).1 ?_).2 hoff⟩
    intro base source image hready
    exact absurd hoff hready.gives.not_breaksOff

/-- Not every run without an image ends with exit code 1: the end of the opcode
field is no 32-bit number here, and the run breaks off where it is computed. -/
theorem exists_run_exit_ne_one :
    ∃ (tree : FileTree) (options : Options),
      (∀ base source image, Ready tree options base source →
        assemble (options.resize base) source ≠ .ok image) ∧
      ((runOptions FileTree.access options).run tree).1.exit ≠ 1 := by
  have hcheck : InstructionSet.validate
      { InstructionSet.basic with
        layout := { InstructionSet.basic.layout with opcode := ⟨4294967288, 40⟩ } } =
      .error (.overflow .opcode) := rfl
  have hoff : SetSource.BreaksOff ⟨[(["set"], .file (InstructionSet.description _).toUTF8)], []⟩
      ⟨.basic, some "set"⟩ :=
    SetSource.breaksOff_of_description (FileTree.read_of_locate rfl rfl) hcheck
  have hnone : ∀ base source image,
      Ready _ ⟨"a.s", "a.hex", ⟨.basic, some "set"⟩, none⟩ base source →
      assemble base source ≠ .ok image :=
    fun _ _ _ hready => absurd hoff hready.gives.not_breaksOff
  refine ⟨_, ⟨"a.s", "a.hex", ⟨.basic, some "set"⟩, none⟩, hnone, ?_⟩
  rw [(run_of_no_image hnone).2 hoff]
  decide

end Assembler

end Asm32
