import Asm32.Proofs.FieldArithmetic
import Mathlib.Data.List.Induction

/-!
# The patch pass

What `fixup` does with references to addresses inside the program, in any order
and with repeats: it fails exactly when a label is missing, and names the first
(`outcome_fixup`); otherwise each word is patched by the references to its own
address, in order, and by no other (`getElem?_words_fixup`).

A patch overwrites the whole displacement, so of several references to one
address only the last shows (`getElem?_words_fixup_last`).  What the pass leaves
behind depends on these last references alone (`words_fixup_congr`).  A pass that
fails has done the references in front of the missing label
(`fixup_append_undefined`).
-/

namespace Asm32

/-- The word with the distance to the label of a reference in its displacement.
A word whose reference cannot be resolved stays as it is. -/
def Reference.patch (disp : Field) (labels : LabelTable) (word : Word) (r : Reference) : Word :=
  match labels.get? r.label with
  | some target => disp.replace word (lowWord (displacement target r.address))
  | none => word

variable {disp : Field} {labels : LabelTable} {words : List Word} {references : List Reference}

/-- A reference that can be resolved patches its word and leaves the rest of the
list to go on. -/
theorem fixup_cons {r : Reference} {word : Word} (hdefined : labels.get? r.label ≠ none)
    (hword : words[r.address]? = some word) :
    (fixup disp labels words (r :: references)).outcome =
        (fixup disp labels (words.set r.address (r.patch disp labels word)) references).outcome ∧
      (fixup disp labels words (r :: references)).words =
        (fixup disp labels (words.set r.address (r.patch disp labels word)) references).words := by
  cases hlabel : labels.get? r.label with
  | none => exact absurd hlabel hdefined
  | some target => simp [fixup, Reference.patch, hlabel, hword]

/-- Patching fails exactly when a label is missing, and names the first. -/
theorem outcome_fixup (hrange : ∀ r ∈ references, r.address < words.length) :
    (fixup disp labels words references).outcome =
      match references.find? fun r => (labels.get? r.label).isNone with
      | some r => .error (.undefinedLabel r.label)
      | none => .ok () := by
  induction references generalizing words with
  | nil => rfl
  | cons r rest ih =>
      rw [List.forall_mem_cons] at hrange
      cases hlabel : labels.get? r.label with
      | none => simp [fixup, hlabel]
      | some target =>
          have hword := List.getElem?_eq_getElem hrange.1
          rw [(fixup_cons (by simp [hlabel]) hword).1, ih]
          · simp [hlabel]
          · simpa using hrange.2

/-- Where all labels are known, a word is patched by the references to it. -/
theorem getElem?_words_fixup (hrange : ∀ r ∈ references, r.address < words.length)
    (hdefined : ∀ r ∈ references, labels.get? r.label ≠ none) (k : Nat) :
    (fixup disp labels words references).words[k]? =
      words[k]?.map fun word =>
        (references.filter fun r => r.address == k).foldl (Reference.patch disp labels) word := by
  induction references generalizing words with
  | nil => simp [fixup]
  | cons r rest ih =>
      rw [List.forall_mem_cons] at hrange hdefined
      have hword := List.getElem?_eq_getElem hrange.1
      rw [(fixup_cons hdefined.1 hword).2, ih (by simpa using hrange.2) hdefined.2]
      by_cases hk : r.address = k
      · subst hk
        simp [hrange.1]
      · simp [hk, List.getElem?_set_ne hk]

/-! ## The last reference to an address -/

/-- The last of the references to an address. -/
def Reference.lastTo? (references : List Reference) (address : Nat) : Option Reference :=
  (references.filter fun r => r.address == address).getLast?

theorem Reference.lastTo?_eq_none_iff {k : Nat} :
    Reference.lastTo? references k = none ↔ ∀ r ∈ references, r.address ≠ k := by
  simp [Reference.lastTo?]

theorem Reference.of_lastTo?_eq_some {k : Nat} {r : Reference}
    (h : Reference.lastTo? references k = some r) : r ∈ references ∧ r.address = k := by
  simpa using List.mem_of_getLast? h

/-- A patch leaves nothing of the patches before it. -/
theorem Reference.patch_patch {r : Reference} (hdefined : labels.get? r.label ≠ none)
    (other : Reference) (word : Word) :
    r.patch disp labels (other.patch disp labels word) = r.patch disp labels word := by
  obtain ⟨target, htarget⟩ := Option.ne_none_iff_exists'.1 hdefined
  cases hother : labels.get? other.label with
  | none => simp [Reference.patch, hother]
  | some _ => simp [Reference.patch, htarget, hother, Field.replace_replace]

theorem Reference.foldl_patch (hdefined : ∀ r ∈ references, labels.get? r.label ≠ none)
    (word : Word) :
    references.foldl (Reference.patch disp labels) word =
      references.getLast?.elim word (Reference.patch disp labels word) := by
  induction references using List.reverseRecOn with
  | nil => rfl
  | append_singleton above r ih =>
      rw [List.forall_mem_append, List.forall_mem_singleton] at hdefined
      rw [List.foldl_append, ih hdefined.1, List.getLast?_concat]
      cases above.getLast? with
      | none => rfl
      | some other => exact Reference.patch_patch hdefined.2 other word

/-- Where all labels are known, a word is patched by the last reference to it. -/
theorem getElem?_words_fixup_last (hrange : ∀ r ∈ references, r.address < words.length)
    (hdefined : ∀ r ∈ references, labels.get? r.label ≠ none) (k : Nat) :
    (fixup disp labels words references).words[k]? =
      words[k]?.map fun word =>
        (Reference.lastTo? references k).elim word (Reference.patch disp labels word) := by
  have hfilter : ∀ r ∈ references.filter fun r => r.address == k, labels.get? r.label ≠ none :=
    fun r hr => hdefined r (List.mem_filter.1 hr).1
  rw [getElem?_words_fixup hrange hdefined]
  simp only [Reference.foldl_patch hfilter]
  rfl

/-- The order of references matters only among those to one address. -/
theorem words_fixup_congr {others : List Reference}
    (hrange : ∀ r ∈ references, r.address < words.length)
    (hdefined : ∀ r ∈ references, labels.get? r.label ≠ none)
    (hrange' : ∀ r ∈ others, r.address < words.length)
    (hdefined' : ∀ r ∈ others, labels.get? r.label ≠ none)
    (hlast : ∀ k, Reference.lastTo? others k = Reference.lastTo? references k) :
    (fixup disp labels words others).words = (fixup disp labels words references).words := by
  apply List.ext_getElem?
  intro k
  rw [getElem?_words_fixup_last hrange' hdefined', getElem?_words_fixup_last hrange hdefined,
    hlast k]

theorem length_words_fixup (disp : Field) (labels : LabelTable) (words : List Word)
    (references : List Reference) :
    (fixup disp labels words references).words.length = words.length := by
  induction references generalizing words with
  | nil => rfl
  | cons r rest ih =>
      rw [fixup]
      split
      · rfl
      · split
        · rfl
        · rw [ih, List.length_set]

/-- Patching what is patched already changes nothing. -/
theorem words_fixup_twice (hrange : ∀ r ∈ references, r.address < words.length)
    (hdefined : ∀ r ∈ references, labels.get? r.label ≠ none) :
    (fixup disp labels (fixup disp labels words references).words references).words =
      (fixup disp labels words references).words := by
  have hrange' : ∀ r ∈ references,
      r.address < (fixup disp labels words references).words.length := by
    rw [length_words_fixup]
    exact hrange
  apply List.ext_getElem?
  intro k
  rw [getElem?_words_fixup_last hrange' hdefined, getElem?_words_fixup_last hrange hdefined,
    Option.map_map]
  congr 1
  funext word
  cases hlast : Reference.lastTo? references k with
  | none => rfl
  | some r =>
      have hmem := (Reference.of_lastTo?_eq_some hlast).1
      exact Reference.patch_patch (hdefined r hmem) r word

/-! ## A missing label -/

/-- The pass stops at a missing label and keeps what it has done. -/
theorem fixup_append_undefined {before after : List Reference} {r : Reference}
    (hrange : ∀ q ∈ before, q.address < words.length)
    (hbefore : ∀ q ∈ before, labels.get? q.label ≠ none) (hmissing : labels.get? r.label = none) :
    (fixup disp labels words (before ++ r :: after)).outcome = .error (.undefinedLabel r.label) ∧
      (fixup disp labels words (before ++ r :: after)).words =
        (fixup disp labels words before).words := by
  induction before generalizing words with
  | nil => simp [fixup, hmissing]
  | cons q rest ih =>
      rw [List.forall_mem_cons] at hrange hbefore
      have hword := List.getElem?_eq_getElem hrange.1
      rw [List.cons_append, (fixup_cons hbefore.1 hword).1, (fixup_cons hbefore.1 hword).2,
        (fixup_cons hbefore.1 hword).2]
      exact ih (by simpa using hrange.2) hbefore.2

/-- The first reference whose label is missing. -/
theorem exists_first_undefined (h : ∃ r ∈ references, labels.get? r.label = none) :
    ∃ before r after, references = before ++ r :: after ∧
      (∀ q ∈ before, labels.get? q.label ≠ none) ∧ labels.get? r.label = none := by
  obtain ⟨r, hr, hmissing⟩ := h
  have hfind : (references.find? fun r => (labels.get? r.label).isNone).isSome = true := by
    rw [List.find?_isSome]
    exact ⟨r, hr, by rw [hmissing, Option.isNone_none]⟩
  obtain ⟨first, hfirst⟩ := Option.isSome_iff_exists.1 hfind
  obtain ⟨hnone, before, after, hsplit, hbefore⟩ := List.find?_eq_some_iff_append.1 hfirst
  refine ⟨before, first, after, hsplit, ?_, by simpa using hnone⟩
  intro q hq
  simpa [Option.isSome_iff_ne_none] using hbefore q hq

/-! ## The pass as a whole -/

theorem outcome_fixup_eq_ok_iff (hrange : ∀ r ∈ references, r.address < words.length) :
    (fixup disp labels words references).outcome = .ok () ↔
      ∀ r ∈ references, labels.get? r.label ≠ none := by
  rw [outcome_fixup hrange]
  cases hfind : references.find? fun r => (labels.get? r.label).isNone with
  | none =>
      simp only [true_iff]
      intro r hr
      simpa using List.find?_eq_none.1 hfind r hr
  | some r =>
      simp only [reduceCtorEq, false_iff]
      intro hdefined
      have hmissing := List.find?_some hfind
      exact hdefined r (List.mem_of_find?_eq_some hfind) (by simpa using hmissing)

/-- A patched word has the distance to the label in its displacement, and its own
bits elsewhere. -/
theorem Reference.patch_spec (hfits : disp.fitsWord = true) {r : Reference} {target : Nat}
    (htarget : labels.get? r.label = some target) (word : Word) :
    (∀ i, ¬(disp.shift.toNat ≤ i ∧ i < disp.shift.toNat + disp.width.toNat) →
        (r.patch disp labels word).getLsbD i = word.getLsbD i) ∧
      ((disp.extract (r.patch disp labels word)).toNat : Int) =
        (target - (r.address + 1)) % 2 ^ disp.width.toNat := by
  have hpatch : r.patch disp labels word =
      disp.replace word (BitVec.ofInt 32 (target - (r.address + 1))) := by
    simp only [Reference.patch, htarget, lowWord_displacement]
  rw [hpatch]
  constructor
  · intro i houtside
    have hmask : disp.maskInPlace.getLsbD i = false := by
      rw [Bool.eq_false_iff]
      intro hin
      simp only [Field.getLsbD_maskInPlace, Bool.and_eq_true, decide_eq_true_eq] at hin
      exact houtside hin.2
    simp [hmask]
  · rw [Field.extract_replace hfits, Field.toNat_ofInt_and_mask hfits]

/-- What a pass does with references to addresses inside the program, in any order
and with repeats, for a displacement field that fits the word.

It succeeds if all labels are known.  Then a word without a reference stays as it
is, and one with references has the distance of the last of them in its
displacement, cut to the field, and its own bits elsewhere.  So references to
different addresses may change places, and a second pass changes nothing.

If a label is missing, the pass names the first and leaves the words as the
references before it do. -/
theorem fixup_exact (disp : Field) (hwidth : 1 ≤ disp.width.toNat)
    (hend : disp.shift.toNat + disp.width.toNat ≤ 32)
    (labels : LabelTable) (words : List Word) (references : List Reference)
    (hrange : ∀ r ∈ references, r.address < words.length) :
    ((fixup disp labels words references).outcome = .ok () ↔
        ∀ r ∈ references, labels.get? r.label ≠ none) ∧
      ((∀ r ∈ references, labels.get? r.label ≠ none) →
        (∀ k, (∀ r ∈ references, r.address ≠ k) →
          (fixup disp labels words references).words[k]? = words[k]?) ∧
        (∀ k r word, Reference.lastTo? references k = some r → words[k]? = some word →
          ∃ target patched, labels.get? r.label = some target ∧
            (fixup disp labels words references).words[k]? = some patched ∧
            (∀ i, ¬(disp.shift.toNat ≤ i ∧ i < disp.shift.toNat + disp.width.toNat) →
              patched.getLsbD i = word.getLsbD i) ∧
            ((disp.extract patched).toNat : Int) = (target - (k + 1)) % 2 ^ disp.width.toNat) ∧
        (∀ others : List Reference, others.Perm references →
          (∀ k, others.filter (fun r => r.address == k) =
            references.filter fun r => r.address == k) →
          (fixup disp labels words others).outcome = .ok () ∧
            (fixup disp labels words others).words =
              (fixup disp labels words references).words) ∧
        (fixup disp labels (fixup disp labels words references).words references).outcome =
            .ok () ∧
          (fixup disp labels (fixup disp labels words references).words references).words =
            (fixup disp labels words references).words) ∧
      ((∃ r ∈ references, labels.get? r.label = none) →
        ∃ before r after, references = before ++ r :: after ∧
          (∀ q ∈ before, labels.get? q.label ≠ none) ∧ labels.get? r.label = none ∧
          (fixup disp labels words references).outcome = .error (.undefinedLabel r.label) ∧
          (fixup disp labels words references).words =
            (fixup disp labels words before).words) := by
  have hfits : disp.fitsWord = true := Field.fitsWord_iff.2 ⟨hwidth, hend⟩
  refine ⟨outcome_fixup_eq_ok_iff hrange, ?_, ?_⟩
  · intro hdefined
    refine ⟨?_, ?_, ?_, ?_, words_fixup_twice hrange hdefined⟩
    · intro k hk
      rw [getElem?_words_fixup_last hrange hdefined, Reference.lastTo?_eq_none_iff.2 hk]
      simp
    · intro k r word hlast hword
      obtain ⟨hmem, rfl⟩ := Reference.of_lastTo?_eq_some hlast
      obtain ⟨target, htarget⟩ := Option.ne_none_iff_exists'.1 (hdefined r hmem)
      obtain ⟨houtside, hinside⟩ := Reference.patch_spec hfits htarget word
      refine ⟨target, r.patch disp labels word, htarget, ?_, houtside, hinside⟩
      rw [getElem?_words_fixup_last hrange hdefined, hlast, hword]
      rfl
    · intro others hperm horder
      have hrange' : ∀ r ∈ others, r.address < words.length :=
        fun r hr => hrange r (hperm.mem_iff.1 hr)
      have hdefined' : ∀ r ∈ others, labels.get? r.label ≠ none :=
        fun r hr => hdefined r (hperm.mem_iff.1 hr)
      have hlast : ∀ k, Reference.lastTo? others k = Reference.lastTo? references k := by
        intro k
        rw [Reference.lastTo?, horder k, Reference.lastTo?]
      exact ⟨(outcome_fixup_eq_ok_iff hrange').2 hdefined',
        words_fixup_congr hrange hdefined hrange' hdefined' hlast⟩
    · refine (outcome_fixup_eq_ok_iff ?_).2 hdefined
      rw [length_words_fixup]
      exact hrange
  · intro hmissing
    obtain ⟨before, r, after, rfl, hbefore, hr⟩ := exists_first_undefined hmissing
    have hrange' : ∀ q ∈ before, q.address < words.length :=
      fun q hq => hrange q (List.mem_append_left _ hq)
    exact ⟨before, r, after, rfl, hbefore, hr, fixup_append_undefined hrange' hbefore hr⟩

/-- Two references to one word, whose displacement was not empty; and a pass that
stops between two references. -/
theorem fixup_exact_repeated :
    (∃ patched, (fixup ⟨0, 16⟩ ⟨[("b", 3), ("a", 0)]⟩ [0#32, 0x4000ffff#32, 0#32]
          [⟨"a", 1⟩, ⟨"b", 2⟩, ⟨"b", 1⟩]).words[1]? = some patched ∧
        (∀ i, ¬(0 ≤ i ∧ i < 16) → patched.getLsbD i = (0x4000ffff#32).getLsbD i) ∧
        ((Field.extract ⟨0, 16⟩ patched).toNat : Int) = 1) ∧
      ∃ before r after, [⟨"a", 1⟩, ⟨"c", 2⟩, ⟨"a", 0⟩] = before ++ r :: after ∧
        (fixup ⟨0, 16⟩ ⟨[("b", 3), ("a", 0)]⟩ [0#32, 0x4000ffff#32, 0#32]
          [⟨"a", 1⟩, ⟨"c", 2⟩, ⟨"a", 0⟩]).outcome = .error (.undefinedLabel r.label) ∧
        (fixup ⟨0, 16⟩ ⟨[("b", 3), ("a", 0)]⟩ [0#32, 0x4000ffff#32, 0#32]
          [⟨"a", 1⟩, ⟨"c", 2⟩, ⟨"a", 0⟩]).words =
            (fixup ⟨0, 16⟩ ⟨[("b", 3), ("a", 0)]⟩ [0#32, 0x4000ffff#32, 0#32] before).words := by
  constructor
  · obtain ⟨_, hpatched, _⟩ := fixup_exact ⟨0, 16⟩ (by decide) (by decide) ⟨[("b", 3), ("a", 0)]⟩
      [0#32, 0x4000ffff#32, 0#32] [⟨"a", 1⟩, ⟨"b", 2⟩, ⟨"b", 1⟩] (by decide)
    obtain ⟨_, hlast, _⟩ := hpatched (by decide)
    obtain ⟨target, patched, htarget, hword, houtside, hinside⟩ :=
      hlast 1 ⟨"b", 1⟩ 0x4000ffff#32 rfl rfl
    obtain rfl : 3 = target := Option.some.inj htarget
    refine ⟨patched, hword, ?_, ?_⟩
    · simpa using houtside
    · simpa using hinside
  · obtain ⟨_, _, hmissing⟩ := fixup_exact ⟨0, 16⟩ (by decide) (by decide) ⟨[("b", 3), ("a", 0)]⟩
      [0#32, 0x4000ffff#32, 0#32] [⟨"a", 1⟩, ⟨"c", 2⟩, ⟨"a", 0⟩] (by decide)
    obtain ⟨before, r, after, hsplit, _, _, houtcome, hwords⟩ :=
      hmissing ⟨⟨"c", 2⟩, by decide, rfl⟩
    exact ⟨before, r, after, hsplit, houtcome, hwords⟩

end Asm32
