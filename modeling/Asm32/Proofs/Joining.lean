import Asm32.Proofs.Lines
import Asm32.Proofs.Linking
import Asm32.Proofs.Spelling
import Mathlib.Data.List.Nodup

/-!
# Programs one after the other

Two programs without a label in common, one after the other, assemble to the
words of the first and then those of the second.  All addresses of the second
program move by the length of the first; its words do not, because a branch
holds a distance.

* `exists_readFrom_join` is about the seam.  The line feed between two texts may
  complete the last line of the first, take a carriage return from it, or make
  an empty line, and the lines of the program are the same but for that line.
* `Links.append` and `mapIdx_patchedWord_append` are about programs: they link
  together if each does, and keep their words.
* `assemble_join` puts them together.  It holds for every instruction set,
  validated or not.
-/

namespace Asm32

/-! ## The seam -/

theorem Line.parse?_concat_blank (isa : InstructionSet) {c : Char}
    (hc : Text.isBlank c = true) (text : List Char) :
    Line.parse? isa (text ++ [c]) = Line.parse? isa text := by
  rw [parse?, Token.tokenize?, Token.scan_concat_blank isa.comment hc]
  rfl

namespace Code

variable {isa : InstructionSet} {p q : Code}

/-- A line feed behind a text adds at most a blank line to its program. -/
theorem exists_readFrom_newline {text : List Char} (h : p.ReadFrom isa (Text.lines text)) :
    ∃ gap : Code, gap.labels = [] ∧ gap.statements = [] ∧
      ReadFrom isa (p ++ gap) (Text.lines (text ++ ['\n'])) := by
  rcases Text.lines_concat_newline text with hlines | hlines | ⟨above, last, htext, hlines⟩
  · refine ⟨[⟨none, none⟩], rfl, rfl, ?_⟩
    rw [hlines]
    exact h.append rfl
  · refine ⟨[], rfl, rfl, ?_⟩
    rw [hlines, List.append_nil]
    exact h
  · refine ⟨[], rfl, rfl, ?_⟩
    rw [htext, ReadFrom, List.map_append, List.map_singleton,
      Line.parse?_concat_blank isa (by decide)] at h
    rw [hlines, List.append_nil, ReadFrom, List.map_append, List.map_singleton, h]

/-- Two texts with a line feed between them hold both programs, with at most a
blank line between them. -/
theorem exists_readFrom_join {first second : List Char} (hp : p.ReadFrom isa (Text.lines first))
    (hq : q.ReadFrom isa (Text.lines second)) :
    ∃ gap : Code, gap.labels = [] ∧ gap.statements = [] ∧
      ReadFrom isa (p ++ gap ++ q) (Text.lines (first ++ '\n' :: second)) := by
  obtain ⟨gap, hlabels, hstatements, hread⟩ := exists_readFrom_newline hp
  refine ⟨gap, hlabels, hstatements, ?_⟩
  rw [Text.lines_append_newline]
  exact hread.append hq

/-! ## Linking -/

theorem links_of_empty (hlabels : p.labels = []) (hstatements : p.statements = []) :
    p.Links isa where
  labels := by simp [hlabels]
  encodes := by simp [hstatements]
  defined := by simp [undefined?, hstatements]

/-- Programs without a label in common link together if each does. -/
theorem Links.append (hp : p.Links isa) (hq : q.Links isa)
    (hlabels : p.labels.Disjoint q.labels) : Links isa (p ++ q) where
  labels := by
    rw [labels_append]
    exact List.Nodup.append hp.labels hq.labels hlabels
  encodes := by
    rw [forall_statements_append]
    exact ⟨hp.encodes, fun k s hs =>
      InstructionSet.exists_encode_of_encode (hq.encodes k s hs) _⟩
  defined := by
    have hdefinedp := undefined?_eq_none_iff.1 hp.defined
    have hdefinedq := undefined?_eq_none_iff.1 hq.defined
    rw [undefined?_eq_none_iff, statements_append, labels_append]
    intro s hs name hname
    rcases List.mem_append.1 hs with hs | hs
    · exact List.mem_append_left _ (hdefinedp s hs name hname)
    · exact List.mem_append_right _ (hdefinedq s hs name hname)

/-- A branch to a label above keeps its word when lines follow. -/
theorem patchedWord_append_left {s : Statement}
    (hdefined : ∀ name, s.branchLabel? isa = some name → name ∈ p.labels) (k : Nat) :
    patchedWord isa (p ++ q) k s = p.patchedWord isa k s := by
  unfold patchedWord
  cases hlabel : s.branchLabel? isa with
  | none => rfl
  | some name =>
      obtain ⟨t, ht⟩ := exists_address?_of_mem_labels (hdefined name hlabel)
      simp only [address?_append, ht, Option.some_or]

/-- A branch keeps its word behind another program that does not define its
label: the branch and its target move together. -/
theorem patchedWord_append_right {s : Statement}
    (hdefined : ∀ name, s.branchLabel? isa = some name → name ∈ q.labels)
    (hlabels : p.labels.Disjoint q.labels) (k : Nat) :
    patchedWord isa (p ++ q) (p.statements.length + k) s = q.patchedWord isa k s := by
  unfold patchedWord
  rw [encodedWord_address isa (p.statements.length + k) k]
  cases hlabel : s.branchLabel? isa with
  | none => rfl
  | some name =>
      have hq := hdefined name hlabel
      have habove : p.address? name = none := by
        rw [address?_eq_none_iff]
        exact fun hp => hlabels hp hq
      obtain ⟨t, ht⟩ := exists_address?_of_mem_labels hq
      have hdistance : ((p.statements.length + t : Nat) : Int) -
          ((p.statements.length + k : Nat) + 1) = t - (k + 1) := by
        push_cast
        omega
      simp only [address?_append, habove, ht, Option.none_or, Option.map_some, Option.getD_some,
        hdistance]

/-- The words of two programs that link are the words of each. -/
theorem mapIdx_patchedWord_append (hp : p.Links isa) (hq : q.Links isa)
    (hlabels : p.labels.Disjoint q.labels) :
    (statements (p ++ q)).mapIdx (patchedWord isa (p ++ q)) =
      p.statements.mapIdx (p.patchedWord isa) ++ q.statements.mapIdx (q.patchedWord isa) := by
  have hdefinedp := undefined?_eq_none_iff.1 hp.defined
  have hdefinedq := undefined?_eq_none_iff.1 hq.defined
  rw [statements_append, List.mapIdx_append]
  congr 1
  · rw [List.mapIdx_eq_mapIdx_iff]
    intro k hk
    exact patchedWord_append_left (hdefinedp _ (List.getElem_mem hk)) k
  · rw [List.mapIdx_eq_mapIdx_iff]
    intro k hk
    rw [Nat.add_comm]
    exact patchedWord_append_right (hdefinedq _ (List.getElem_mem hk)) hlabels k

end Code

/-- Two sources that assemble and have no label in common assemble one after the
other, with a line feed between them, to the words of both, and fail only if
these do not fit the memory. -/
theorem assemble_join {isa : InstructionSet} {first second : String} {a b : Image}
    (hfirst : assemble isa first = .ok a) (hsecond : assemble isa second = .ok b)
    (hlabels : (Code.ofSource isa first).labels.Disjoint (Code.ofSource isa second).labels) :
    (a.words.length + b.words.length ≤ isa.memoryWords.toNat →
        ∃ image, assemble isa (first ++ "\n" ++ second) = .ok image ∧
          image.words = a.words ++ b.words ∧ image.capacity = isa.memoryWords) ∧
      (isa.memoryWords.toNat < a.words.length + b.words.length →
        assemble isa (first ++ "\n" ++ second) =
          .error (.programTooLarge (a.words.length + b.words.length) isa.memoryWords.toNat)) := by
  obtain ⟨hreada, hlinksa⟩ := links_of_assemble hfirst
  obtain ⟨hreadb, hlinksb⟩ := links_of_assemble hsecond
  obtain ⟨gap, hnolabels, hnostatements, hread⟩ := Code.exists_readFrom_join hreada hreadb
  have hgap : gap.Links isa := Code.links_of_empty hnolabels hnostatements
  have hgapa : (Code.ofSource isa first).labels.Disjoint gap.labels := by simp [hnolabels]
  have hlabels' : (Code.labels (Code.ofSource isa first ++ gap)).Disjoint
      (Code.ofSource isa second).labels := by
    rwa [Code.labels_append, hnolabels, List.append_nil]
  have hlinks := hlinksa.append hgap hgapa
  have hresult : assemble isa (first ++ "\n" ++ second) =
      Image.ofWords (a.words ++ b.words) isa.memoryWords := by
    have hsource : (first ++ "\n" ++ second).toList = first.toList ++ '\n' :: second.toList := by
      simp
    rw [assemble_of_links (hsource ▸ hread) (hlinks.append hlinksb hlabels'),
      Code.mapIdx_patchedWord_append hlinks hlinksb hlabels',
      Code.mapIdx_patchedWord_append hlinksa hgap hgapa, hnostatements, List.mapIdx_nil,
      List.append_nil, (assemble_eq_ok_iff.1 hfirst).2.2.1, (assemble_eq_ok_iff.1 hsecond).2.2.1]
  rw [hresult, Image.ofWords, ← List.length_append]
  constructor
  · intro hfits
    rw [dif_pos hfits]
    exact ⟨_, rfl, rfl, rfl⟩
  · intro hlarge
    rw [dif_neg (Nat.not_le.2 hlarge)]

/-- A loop whose text ends in a carriage return, and behind it a branch to the
end.  A memory of one word holds each of them, but not both. -/
theorem assemble_join_loop :
    (∃ image, assemble .extended ("loop: b loop\r" ++ "\n" ++ "b end\nend:") = .ok image ∧
        image.words = [0x2000ffff#32, 0x20000000#32]) ∧
      assemble (InstructionSet.extended.withCapacity 1)
          ("loop: b loop\r" ++ "\n" ++ "b end\nend:") = .error (.programTooLarge 2 1) := by
  have hlarge : assemble .extended "loop: b loop\r" = .ok ⟨[0x2000ffff#32], 256, by decide⟩ ∧
      assemble .extended "b end\nend:" = .ok ⟨[0x20000000#32], 256, by decide⟩ := ⟨rfl, rfl⟩
  have hsmall : assemble (InstructionSet.extended.withCapacity 1) "loop: b loop\r" =
        .ok ⟨[0x2000ffff#32], 1, by decide⟩ ∧
      assemble (InstructionSet.extended.withCapacity 1) "b end\nend:" =
        .ok ⟨[0x20000000#32], 1, by decide⟩ := ⟨rfl, rfl⟩
  have hlabels : ["loop"].Disjoint ["end"] := by simp
  constructor
  · obtain ⟨image, hassemble, hwords, _⟩ :=
      (assemble_join hlarge.1 hlarge.2 hlabels).1 (by decide)
    exact ⟨image, hassemble, hwords⟩
  · exact (assemble_join hsmall.1 hsmall.2 hlabels).2 (by decide)

end Asm32
