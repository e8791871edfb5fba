import Asm32.Command.SetSource

/-!
# Reading and writing files

What a write does to a file system: one place gets the new content, by the path
that was written it is read back, and all other places stay as they are
(`write_eq_ok_iff`, `read_of_write`).

A path may pass through directories on its way, so a write could change where
the path itself leads.  It does not: the place that is written holds no
directory (`entry?_ne_directory`), so every step of the path finds what it found
before (`follow_put`).

The last section is about programs as steps over files.  A step that only reads
hands the files on as they are.  `SetSource.Gives` says which instruction set is
found in them, and `SetSource.BreaksOff` when its check does not come to an end.
-/

namespace Asm32

/-! ## Results with another error -/

section MapError

variable {ε δ α : Type} {f : ε → δ} {x : Except ε α}

theorem mapError_eq_ok_iff {a : α} : x.mapError f = .ok a ↔ x = .ok a := by
  constructor
  · intro h
    cases x <;> cases h
    rfl
  · rintro rfl
    rfl

theorem mapError_eq_error_iff {d : δ} :
    x.mapError f = .error d ↔ ∃ e, x = .error e ∧ f e = d := by
  constructor
  · intro h
    cases x with
    | error e => exact ⟨e, rfl, Except.error.inj h⟩
    | ok => cases h
  · rintro ⟨e, rfl, rfl⟩
    rfl

end MapError

namespace FileTree

variable {tree : FileTree}

/-! ## Entries -/

theorem lookup_filter_ne {place other : List String} (hne : other ≠ place)
    (entries : List (List String × Entry)) :
    (entries.filter fun e => e.1 != place).lookup other = entries.lookup other := by
  induction entries with
  | nil => rfl
  | cons e rest ih =>
      obtain ⟨path, entry⟩ := e
      by_cases hpath : path = place
      · subst hpath
        simp [List.lookup_cons, beq_eq_false_iff_ne.2 hne, ih]
      · simp [hpath, List.lookup_cons, ih]

/-- Putting an entry changes one place. -/
theorem entry?_put (tree : FileTree) (place other : List String) (entry : Entry) :
    entry? (tree.put place entry) other =
      if other = place then some entry else tree.entry? other := by
  unfold put entry?
  split
  next heq => simp [heq]
  next hne => simp [List.lookup_cons, beq_eq_false_iff_ne.2 hne, lookup_filter_ne hne]

/-! ## Paths -/

/-- The place of a file, or of one that can be made. -/
def Target.place? : Target → Option (List String)
  | .file place _ => some place
  | .missing place => some place
  | .directory => none
  | .unnameable => none

/-- A path that leads to the place of a file finds no directory there. -/
theorem entry?_ne_directory {start : List String} {names : List String} {target : Target}
    {place : List String} (hfollow : tree.follow start names = .ok target)
    (hplace : target.place? = some place) : tree.entry? place ≠ some .directory := by
  fun_induction follow tree start names with
  | case1 | case4 =>
      cases hfollow
      cases hplace
  | case5 | case8 | case10 => cases hfollow
  | case2 _ _ ih | case3 _ _ _ ih | case6 _ _ _ _ _ _ _ ih => exact ih hfollow
  | case7 _ _ _ _ _ _ _ hentry | case9 _ _ _ _ _ _ hentry =>
      cases hfollow
      cases hplace
      simp [hentry]

/-- A file that is put where a path leads is found by the path.  The directories
on the way are other places. -/
theorem follow_put {start : List String} {names : List String} {target : Target}
    {place : List String} (hfollow : tree.follow start names = .ok target)
    (hplace : target.place? = some place) (bytes : ByteArray) :
    (tree.put place (.file bytes)).follow start names = .ok (.file place bytes) := by
  have hdirectory : ∀ other, tree.entry? other = some .directory →
      entry? (tree.put place (.file bytes)) other = some .directory := by
    intro other hother
    rw [entry?_put, if_neg, hother]
    rintro rfl
    exact entry?_ne_directory hfollow hplace hother
  fun_induction follow tree start names with
  | case1 | case4 =>
      cases hfollow
      cases hplace
  | case5 | case8 | case10 => cases hfollow
  | case2 _ _ ih | case3 _ _ _ ih => simpa [follow] using ih hfollow
  | case6 _ _ _ hdot hdots hlength hentry ih =>
      simp [follow, hdot, hdots, hlength, hdirectory _ hentry, ih hfollow]
  | case7 _ _ _ hdot hdots hlength _ hentry hlast | case9 _ _ _ hdot hdots hlength hentry hlast =>
      cases hfollow
      cases hplace
      simp [follow, hdot, hdots, hlength, entry?_put, hlast]

theorem locate_put {path : String} {target : Target} {place : List String}
    (hlocate : tree.locate path = .ok target) (hplace : target.place? = some place)
    (bytes : ByteArray) :
    (tree.put place (.file bytes)).locate path = .ok (.file place bytes) := by
  unfold locate at hlocate ⊢
  split at hlocate
  next => cases hlocate
  next hnames =>
    split at hlocate
    next => cases hlocate
    next hlength =>
      rw [if_neg hnames, if_neg hlength]
      exact follow_put hlocate hplace bytes

/-! ## Writing -/

/-- A write that succeeds puts the content at the place of a file. -/
theorem write_eq_ok_iff {path content : String} {after : FileTree} :
    tree.write path content = .ok after ↔
      ∃ target place, tree.locate path = .ok target ∧ target.place? = some place ∧
        endsInSlash path = false ∧ after = tree.put place (.file content.toUTF8) := by
  unfold write
  cases tree.locate path with
  | error e => simp
  | ok target =>
      cases endsInSlash path <;> cases target <;> simp [Target.place?, eq_comm]

/-- A path that leads to a file with a text reads the text. -/
theorem read_of_locate {path content : String} {place : List String}
    (hlocate : tree.locate path = .ok (.file place content.toUTF8))
    (hslash : endsInSlash path = false) : tree.read path = .ok content := by
  have htext : String.fromUTF8? content.toUTF8 = some content := dif_pos content.isValidUTF8
  simp only [read, hlocate, hslash, htext, Bool.false_eq_true, if_false]

/-- What is written is read back by the same path, and no other place changes. -/
theorem read_of_write {path content : String} {after : FileTree}
    (hwrite : tree.write path content = .ok after) :
    after.read path = .ok content ∧
      ∃ place, after.locate path = .ok (.file place content.toUTF8) ∧
        ∀ other, other ≠ place → after.entry? other = tree.entry? other := by
  obtain ⟨target, place, hlocate, hplace, hslash, rfl⟩ := write_eq_ok_iff.1 hwrite
  have hfound := locate_put hlocate hplace content.toUTF8
  exact ⟨read_of_locate hfound hslash, place, hfound,
    fun other hother => by rw [entry?_put, if_neg hother]⟩

/-! ## Steps of a program -/

/-- Reading a file leaves the files as they are. -/
theorem run_read (tree : FileTree) (path : String) :
    (access.read path).run tree = (tree.read path, tree) :=
  rfl

theorem run_write {path content : String} {after : FileTree}
    (h : tree.write path content = .ok after) :
    (access.write path content).run tree = (.ok (), after) := by
  simp only [access, StateT.run_bind, StateT.run_get, pure_bind, h]
  rfl

/-- A step that leaves the files as they are hands them on. -/
theorem run_bind {α β : Type} {step : StateM FileTree α} {a : α}
    (h : step.run tree = (a, tree)) (next : α → StateM FileTree β) :
    (step >>= next).run tree = (next a).run tree := by
  rw [StateT.run_bind, h]
  rfl

end FileTree

namespace SetSource

/-- The instruction set that is found in the files. -/
inductive Gives (tree : FileTree) : SetSource → InstructionSet → Prop where
  | builtin (variant : InstructionSet.Variant) : Gives tree ⟨variant, none⟩ (.ofVariant variant)
  | file {variant path text isa} (hread : tree.read path = .ok text)
      (hdescription : InstructionSet.ofDescription text = .ok isa) :
      Gives tree ⟨variant, some path⟩ isa

/-- The check of the instruction set that is found in the files breaks off, since
the end of a field in its description is no 32-bit number. -/
inductive BreaksOff (tree : FileTree) : SetSource → Prop where
  | file {variant path text isa name} (hread : tree.read path = .ok text)
      (hjson : (Json.parse? text).bind InstructionSet.ofJson? = some isa)
      (hcheck : isa.validate = .error (.overflow name)) : BreaksOff tree ⟨variant, some path⟩

theorem ofDescription_eq_overflow_iff {text : String} {name : FieldName} :
    InstructionSet.ofDescription text = .error (.checkFailed (.overflow name)) ↔
      ∃ isa, (Json.parse? text).bind InstructionSet.ofJson? = some isa ∧
        isa.validate = .error (.overflow name) := by
  unfold InstructionSet.ofDescription
  cases (Json.parse? text).bind InstructionSet.ofJson? with
  | none => simp
  | some isa => cases hcheck : isa.validate <;> simp [hcheck]

/-- Loading gives the instruction set that is found and fails if there is none; it
leaves the files as they are. -/
theorem exists_run_load (source : SetSource) (tree : FileTree) :
    ∃ loaded, (source.load FileTree.access).run tree = (loaded, tree) ∧
      (∀ isa, loaded = .ok isa ↔ source.Gives tree isa) ∧
      ((∃ name, loaded = .error (.rejected (.checkFailed (.overflow name)))) ↔
        source.BreaksOff tree) := by
  obtain ⟨variant, _ | path⟩ := source
  · refine ⟨_, rfl, fun isa => ⟨?_, ?_⟩, ⟨by simp, ?_⟩⟩
    · rintro ⟨⟩
      exact .builtin variant
    · rintro ⟨⟩
      rfl
    · rintro ⟨⟩
  · rw [load, FileTree.run_bind (tree.run_read path)]
    cases hread : tree.read path with
    | error e =>
        refine ⟨_, rfl, fun isa => ⟨by simp, ?_⟩, ⟨by simp, ?_⟩⟩
        · rintro (_ | ⟨htext, _⟩)
          simp [hread] at htext
        · rintro ⟨htext, _, _⟩
          simp [hread] at htext
    | ok text =>
        refine ⟨_, rfl, fun isa => ⟨fun hloaded => .file hread ?_, ?_⟩, ?_, ?_⟩
        · exact mapError_eq_ok_iff.1 hloaded
        · rintro (_ | ⟨htext, hdescription⟩)
          obtain rfl := Except.ok.inj (hread.symm.trans htext)
          exact mapError_eq_ok_iff.2 hdescription
        · rintro ⟨name, hloaded⟩
          obtain ⟨_, hoverflow, ⟨⟩⟩ := mapError_eq_error_iff.1 hloaded
          obtain ⟨isa, hjson, hcheck⟩ := ofDescription_eq_overflow_iff.1 hoverflow
          exact .file hread hjson hcheck
        · rintro ⟨htext, hjson, hcheck⟩
          obtain rfl := Except.ok.inj (hread.symm.trans htext)
          exact ⟨_, mapError_eq_error_iff.2
            ⟨_, ofDescription_eq_overflow_iff.2 ⟨_, hjson, hcheck⟩, rfl⟩⟩

end SetSource

end Asm32
