import Asm32.InstructionSet.Validation
import Asm32.Source.Token

/-!
# Texts that spell tokens

`Token.Spells` relates a text to the tokens it is made of, without a scan: the
tokens stand in order, with gaps between them where one likes, and a word ends
where no word character follows.  What counts as a gap is a parameter, so that
written lines, which use the space only, and source lines are covered alike.

* `scan_append` and `scan_eq_bind` follow the scan through a word and past its
  end, and `scan_takeWhile` ends it in front of the comment.
* `Spells.append` builds the spelling of a text from its parts.
* `Spells.tokenize?_eq` says that the scan finds the tokens that a text spells,
  and `Spells.of_tokenize?` that it finds no others: the part of a line in front
  of its comment spells the tokens of the line.
-/

namespace Asm32

/-! ## Classes of characters -/

theorem toNat_of_isWordChar {c : Char} (h : isWordChar c = true) :
    48 ≤ c.toNat ∧ c.toNat ≤ 122 := by
  rw [isWordChar, Bool.or_eq_true] at h
  rcases h with halphanum | hscore
  · have hranges : (decide ('A'.val ≤ c.val ∧ c.val ≤ 'Z'.val) ||
        decide ('a'.val ≤ c.val) && decide (c.val ≤ 'z'.val) ||
        decide ('0'.val ≤ c.val) && decide (c.val ≤ '9'.val)) = true := halphanum
    simp only [Bool.or_eq_true, Bool.and_eq_true, decide_eq_true_eq, UInt32.le_iff_toNat_le,
      Char.toNat_val, Char.reduceToNat] at hranges
    omega
  · rw [eq_of_beq hscore]
    decide

theorem isSign_eq_false_of_isWordChar {c : Char} (h : isWordChar c = true) : isSign c = false := by
  rw [Bool.eq_false_iff]
  intro hsign
  simp only [isSign, Bool.or_eq_true, beq_iff_eq] at hsign
  rcases hsign with rfl | rfl <;> exact absurd h (by decide)

namespace Token

/-- Whether a character can start a word. -/
def isWordStart (c : Char) : Bool :=
  isWordChar c || isSign c

theorem isBlank_eq_false_of_isWordStart {c : Char} (h : isWordStart c = true) :
    Text.isBlank c = false := by
  rw [isWordStart, Bool.or_eq_true] at h
  rcases h with hword | hsign
  · have hrange := toNat_of_isWordChar hword
    simp only [Text.isBlank, Text.inRanges, Text.blankRanges, List.any_eq_false, List.mem_cons,
      List.not_mem_nil, or_false, Bool.and_eq_true, decide_eq_true_eq]
    intro range hmem hbounds
    obtain ⟨hlower, hupper⟩ := hbounds
    rcases hmem with rfl | rfl | rfl | rfl | rfl | rfl | rfl | rfl | rfl | rfl <;>
      simp only at hlower hupper <;> omega
  · simp only [isSign, Bool.or_eq_true, beq_iff_eq] at hsign
    rcases hsign with rfl | rfl <;> decide

theorem isWordStart_eq_false_of_isBlank {c : Char} (h : Text.isBlank c = true) :
    isWordStart c = false := by
  rw [Bool.eq_false_iff]
  intro hstart
  rw [isBlank_eq_false_of_isWordStart hstart] at h
  cases h

/-- A class of characters without the four marks has no mark in it. -/
theorem ofMark?_eq_none {isClass : Char → Bool}
    (hmarks : [':', ',', '(', ')'].any isClass = false) {c : Char} (h : isClass c = true) :
    ofMark? c = none := by
  have hne : ∀ mark ∈ [':', ',', '(', ')'], c ≠ mark := by
    intro mark hmem hmark
    subst hmark
    exact List.any_eq_false.1 hmarks c hmem h
  unfold ofMark?
  split
  case h_5 => rfl
  all_goals exact absurd rfl (hne _ (by simp))

/-- Whether the syntax of source lines uses a character. -/
def isSyntax (c : Char) : Bool :=
  isWordStart c || (ofMark? c).isSome || Text.isBlank c

/-- The comment marker is a character that the syntax does not use. -/
theorem isSyntax_eq_false {comment : Char}
    (hcomment : InstructionSet.isCommentMarker comment = true) : isSyntax comment = false := by
  have hmark : ofMark? comment = none := ofMark?_eq_none (by decide) hcomment
  simp only [InstructionSet.isCommentMarker, InstructionSet.isReserved, Bool.and_eq_true,
    Bool.not_eq_true', List.contains_eq_mem, List.mem_cons, List.not_mem_nil, or_false,
    decide_eq_false_iff_not, not_or] at hcomment
  obtain ⟨⟨⟨_, _, _, _, hminus, hplus, hscore⟩, hblank⟩, halphanum⟩ := hcomment
  simp [isSyntax, isWordStart, isWordChar, isSign, hmark, hblank, halphanum, hminus, hplus, hscore]

theorem ne_comment {comment c : Char}
    (hcomment : InstructionSet.isCommentMarker comment = true) (hc : isSyntax c = true) :
    c ≠ comment := by
  intro hsame
  subst hsame
  rw [isSyntax_eq_false hcomment] at hc
  cases hc

/-! ## Words -/

/-- Whether a text is a word: one or more word characters, with a sign in front
or without one. -/
def isWord (text : String) : Bool :=
  match text.toList with
  | [] => false
  | c :: rest => rest.all isWordChar && (isWordChar c || isSign c && !rest.isEmpty)

theorem isWord_of_isIdentifier {text : String} (h : isIdentifier text = true) :
    isWord text = true := by
  unfold isIdentifier at h
  unfold isWord
  cases htext : text.toList with
  | nil => simp [htext] at h
  | cons c rest =>
      simp only [htext, List.isEmpty_cons, Bool.not_false, Bool.true_and, List.all_cons,
        Bool.and_eq_true] at h
      simp [h.1, h.2]

/-- A word starts like one, goes on with word characters, and is more than a
sign. -/
theorem exists_cons_of_isWord {text : String} (h : isWord text = true) :
    ∃ c rest, text.toList = c :: rest ∧ isWordStart c = true ∧
      (∀ x ∈ rest, isWordChar x = true) ∧ (rest = [] → isSign c = false) := by
  unfold isWord at h
  cases htext : text.toList with
  | nil => simp [htext] at h
  | cons c rest =>
      simp only [htext, Bool.and_eq_true, List.all_eq_true, Bool.or_eq_true] at h
      obtain ⟨hrest, hstart⟩ := h
      refine ⟨c, rest, rfl, ?_, hrest, ?_⟩
      · rw [isWordStart, Bool.or_eq_true]
        exact hstart.imp_right And.left
      · intro hempty
        subst hempty
        simp only [List.isEmpty_nil, Bool.not_true, Bool.false_eq_true, and_false,
          or_false] at hstart
        exact isSign_eq_false_of_isWordChar hstart

theorem isWordStart_of_mem {text : String} (h : isWord text = true) {c : Char}
    (hmem : c ∈ text.toList) : isWordStart c = true := by
  obtain ⟨first, rest, htext, hfirst, hrest, _⟩ := exists_cons_of_isWord h
  rw [htext] at hmem
  rcases List.mem_cons.1 hmem with rfl | hmem
  · exact hfirst
  · rw [isWordStart, hrest c hmem, Bool.true_or]

/-- Whether a token can be spelled: it is a mark, or its text is a word. -/
def isSpelled : Token → Bool
  | .word text => isWord text
  | _ => true

theorem isSpelled_of_ofMark? {c : Char} {mark : Token} (h : ofMark? c = some mark) :
    mark.isSpelled = true := by
  unfold ofMark? at h
  split at h <;> cases h <;> rfl

/-- Whether a word would go on into a text. -/
def continuesWord : List Char → Bool
  | [] => false
  | c :: _ => isWordChar c

theorem continuesWord_append {text other : List Char} (htext : continuesWord text = false)
    (hother : continuesWord other = false) : continuesWord (text ++ other) = false := by
  cases text with
  | nil => exact hother
  | cons c rest => exact htext

/-! ## The scan -/

@[simp] theorem closeWord_nil (behind : List Token) : closeWord [] behind = some behind := rfl

theorem closeWord_reverse {text : String} (h : isWord text = true) (behind : List Token) :
    closeWord text.toList.reverse behind = some (.word text :: behind) := by
  obtain ⟨c, rest, htext, _, _, hsign⟩ := exists_cons_of_isWord h
  have hback : String.ofList (c :: rest) = text := by rw [← htext, String.ofList_toList]
  rw [htext, List.reverse_cons]
  cases hreverse : rest.reverse with
  | nil =>
      obtain rfl : rest = [] := List.reverse_eq_nil_iff.1 hreverse
      simp [closeWord, hsign rfl, hback]
  | cons last others =>
      have hrest : rest = others.reverse ++ [last] := by
        rw [← List.reverse_reverse rest, hreverse, List.reverse_cons]
      cases others with
      | nil => simp [closeWord, ← hback, hrest]
      | cons other others => simp [closeWord, ← hback, hrest]

/-- Whether characters, last one first, are an open word: none, or the start of a
word with word characters behind it. -/
def isOpen (openWord : List Char) : Bool :=
  match openWord.reverse with
  | [] => true
  | c :: rest => isWordStart c && rest.all isWordChar

theorem isOpen_cons {openWord : List Char} (hne : openWord ≠ []) (hopen : isOpen openWord = true)
    {c : Char} (hc : isWordChar c = true) : isOpen (c :: openWord) = true := by
  unfold isOpen at hopen ⊢
  rw [List.reverse_cons]
  cases hreverse : openWord.reverse with
  | nil => exact absurd (List.reverse_eq_nil_iff.1 hreverse) hne
  | cons first rest =>
      simp only [hreverse, Bool.and_eq_true] at hopen
      simp [hopen.1, hopen.2, hc]

/-- Closing an open word puts a word in front of the tokens behind it. -/
theorem closeWord_eq_some {openWord : List Char} (hopen : isOpen openWord = true)
    {behind tokens : List Token} (h : closeWord openWord behind = some tokens) :
    openWord = [] ∧ tokens = behind ∨
      ∃ word, isWord word = true ∧ word.toList = openWord.reverse ∧
        tokens = .word word :: behind := by
  unfold closeWord at h
  split at h
  next =>
    cases h
    exact .inl ⟨rfl, rfl⟩
  next c =>
    split at h
    next => cases h
    next hsign =>
      cases h
      have hchar : isWordChar c = true := by simpa [isOpen, isWordStart, hsign] using hopen
      exact .inr ⟨String.ofList [c], by simp [isWord, hchar], by simp, rfl⟩
  next hne hsingle =>
    cases h
    refine .inr ⟨String.ofList openWord.reverse, ?_, String.toList_ofList, rfl⟩
    unfold isOpen at hopen
    rw [isWord, String.toList_ofList]
    cases hreverse : openWord.reverse with
    | nil => exact absurd (List.reverse_eq_nil_iff.1 hreverse) hne
    | cons first rest =>
        simp only [hreverse, isWordStart, Bool.and_eq_true, Bool.or_eq_true] at hopen
        have hrest : rest ≠ [] := by
          rintro rfl
          exact hsingle first (List.reverse_eq_iff.1 hreverse)
        simp [hopen.2, hopen.1, hrest]

/-- An open word takes in the word characters that follow. -/
theorem scan_append (comment : Char) {openWord chars : List Char} (hopen : openWord ≠ [])
    (hchars : ∀ c ∈ chars, isWordChar c = true) (text : List Char) :
    scan comment openWord (chars ++ text) = scan comment (chars.reverse ++ openWord) text := by
  induction chars generalizing openWord with
  | nil => rfl
  | cons c rest ih =>
      rw [List.forall_mem_cons] at hchars
      have hempty : openWord.isEmpty = false := by simpa using hopen
      rw [List.cons_append, scan, hempty, hchars.1, List.reverse_cons, List.append_assoc,
        List.singleton_append]
      exact ih (List.cons_ne_nil c openWord) hchars.2

/-- An open word is closed where it does not go on. -/
theorem scan_eq_bind (comment : Char) (openWord : List Char) {text : List Char}
    (htext : continuesWord text = false) :
    scan comment openWord text = (scan comment [] text).bind (closeWord openWord) := by
  cases text with
  | nil => rfl
  | cons c rest =>
      have hc : isWordChar c = false := htext
      rw [scan, scan]
      simp only [hc, Bool.and_false, Bool.false_eq_true, if_false, closeWord_nil, Bool.false_or]
      split
      · rfl
      · cases ofMark? c with
        | some mark => rw [Option.bind_assoc]; rfl
        | none =>
            dsimp only
            split
            · rw [Option.bind_assoc]; rfl
            · split
              · rw [Option.bind_assoc]; rfl
              · rfl

/-- A blank at the end of a line makes no difference, whatever the comment
marker is. -/
theorem scan_concat_blank (comment : Char) {c : Char} (hc : Text.isBlank c = true)
    (openWord text : List Char) :
    scan comment openWord (text ++ [c]) = scan comment openWord text := by
  induction text generalizing openWord with
  | nil =>
      have hword : isWordChar c = false :=
        (Bool.or_eq_false_iff.1 (isWordStart_eq_false_of_isBlank hc)).1
      have hmark : ofMark? c = none := ofMark?_eq_none (by decide) hc
      have hend : continuesWord [c] = false := hword
      rw [List.nil_append, scan_eq_bind comment openWord hend]
      simp [scan, hword, hmark, hc]
  | cons d rest ih => simp only [List.cons_append, scan, ih]

/-- The comment and what is behind it do not count. -/
theorem scan_takeWhile {comment : Char}
    (hcomment : InstructionSet.isCommentMarker comment = true) (openWord line : List Char) :
    scan comment openWord (line.takeWhile (· != comment)) = scan comment openWord line := by
  have hword : isWordChar comment = false := by
    have hsyntax := isSyntax_eq_false hcomment
    simp only [isSyntax, isWordStart, Bool.or_eq_false_iff] at hsyntax
    exact hsyntax.1.1.1
  induction line generalizing openWord with
  | nil => rfl
  | cons c rest ih =>
      by_cases hmarker : c = comment
      · rw [List.takeWhile_cons_of_neg (by simpa using hmarker), hmarker]
        simp [scan, hword]
      · rw [List.takeWhile_cons_of_pos (by simpa using hmarker)]
        simp only [scan, ih]

/-! ## Spelling -/

/-- The text is the tokens in order, with gaps between them.  A word ends where
no word character follows. -/
inductive Spells (isGap : Char → Prop) : List Char → List Token → Prop where
  | nil : Spells isGap [] []
  | gap {c text tokens} (hgap : isGap c) (htext : Spells isGap text tokens) :
      Spells isGap (c :: text) tokens
  | mark {c mark text tokens} (hmark : ofMark? c = some mark)
      (htext : Spells isGap text tokens) : Spells isGap (c :: text) (mark :: tokens)
  | word {word text tokens} (hword : isWord word = true) (hend : continuesWord text = false)
      (htext : Spells isGap text tokens) : Spells isGap (word.toList ++ text) (.word word :: tokens)

namespace Spells

variable {isGap : Char → Prop} {text other : List Char} {tokens others : List Token}

/-- A word and nothing else. -/
theorem single {word : String} (hword : isWord word = true) :
    Spells isGap word.toList [.word word] := by
  have h : Spells isGap (word.toList ++ []) [.word word] := .word hword rfl .nil
  rwa [List.append_nil] at h

/-- Two texts spell their tokens one after the other, unless a word could run
over the seam. -/
theorem append (h : Spells isGap text tokens) (hend : continuesWord other = false)
    (hother : Spells isGap other others) : Spells isGap (text ++ other) (tokens ++ others) := by
  induction h with
  | nil => exact hother
  | gap hgap _ ih => exact .gap hgap ih
  | mark hmark _ ih => exact .mark hmark ih
  | word hword htext _ ih =>
      rw [List.append_assoc, List.cons_append]
      exact .word hword (continuesWord_append htext hend) ih

/-- Only gaps bring characters into a text that are not part of a token. -/
theorem isGap_of_mem (h : Spells isGap text tokens) {c : Char} (hmem : c ∈ text)
    (hstart : isWordStart c = false) (hmark : ofMark? c = none) : isGap c := by
  induction h with
  | nil => cases hmem
  | gap hgap _ ih =>
      rcases List.mem_cons.1 hmem with rfl | hrest
      · exact hgap
      · exact ih hrest
  | mark hsome _ ih =>
      rcases List.mem_cons.1 hmem with rfl | hrest
      · rw [hmark] at hsome
        cases hsome
      · exact ih hrest
  | word hword _ _ ih =>
      rcases List.mem_append.1 hmem with hmem | hrest
      · rw [isWordStart_of_mem hword hmem] at hstart
        cases hstart
      · exact ih hrest

/-- The tokens that a text spells are those that the scan finds. -/
theorem tokenize?_eq {comment : Char}
    (hcomment : InstructionSet.isCommentMarker comment = true)
    (hblank : ∀ c, isGap c → Text.isBlank c = true) (h : Spells isGap text tokens) :
    tokenize? comment text = some tokens := by
  unfold tokenize?
  induction h with
  | nil => rfl
  | @gap c text tokens hgap _ ih =>
      have hne := ne_comment hcomment (c := c) (by simp [isSyntax, hblank c hgap])
      have hmark : ofMark? c = none := ofMark?_eq_none (by decide) (hblank c hgap)
      rw [scan]
      simp [hne, hmark, hblank c hgap, ih]
  | @mark c mark text tokens hmark _ ih =>
      have hne := ne_comment hcomment (c := c) (by simp [isSyntax, hmark])
      rw [scan]
      simp [hne, hmark, ih]
  | @word word text tokens hword hend _ ih =>
      -- The first character opens the word, the others join it, and `text` closes it.
      obtain ⟨c, rest, htext, hstart, hrest, _⟩ := exists_cons_of_isWord hword
      have hne := ne_comment hcomment (c := c) (by simp [isSyntax, hstart])
      have hopen : scan comment [] (word.toList ++ text) = scan comment [c] (rest ++ text) := by
        have hword : (isWordChar c || isSign c) = true := hstart
        have hmark : ofMark? c = none := ofMark?_eq_none (by decide) hstart
        rw [htext, List.cons_append, scan]
        simp [hne, hmark, isBlank_eq_false_of_isWordStart hstart, hword]
      have hchars : rest.reverse ++ [c] = word.toList.reverse := by
        rw [htext, List.reverse_cons]
      rw [hopen, scan_append comment (List.cons_ne_nil c []) hrest, hchars,
        scan_eq_bind comment _ hend, ih, Option.bind_some, closeWord_reverse hword]

/-- Every word that a text spells is a word. -/
theorem all_isSpelled (h : Spells isGap text tokens) : tokens.all isSpelled = true := by
  induction h with
  | nil => rfl
  | gap _ _ ih => exact ih
  | mark hmark _ ih =>
      have hspelled := isSpelled_of_ofMark? hmark
      rw [List.all_cons, hspelled, ih, Bool.and_self]
  | word hword _ _ ih => rw [List.all_cons, isSpelled, hword, ih, Bool.and_self]

/-- The tokens behind an open word, and the word if there is one. -/
theorem of_closeWord {openWord : List Char} (hopen : isOpen openWord = true)
    {behind : List Token} (hend : openWord ≠ [] → continuesWord text = false)
    (htext : Spells isGap text behind) (h : closeWord openWord behind = some tokens) :
    Spells isGap (openWord.reverse ++ text) tokens := by
  rcases closeWord_eq_some hopen h with ⟨rfl, rfl⟩ | ⟨word, hword, hchars, rfl⟩
  · exact htext
  · have hne : openWord ≠ [] := by
      rintro rfl
      simp [isWord, hchars] at hword
    rw [← hchars]
    exact .word hword (hend hne) htext

variable {comment : Char}

/-- What the scan finds is spelled by the open word and the text in front of the
comment. -/
theorem of_scan (hcomment : InstructionSet.isCommentMarker comment = true) {openWord : List Char}
    (hopen : isOpen openWord = true) (h : scan comment openWord text = some tokens) :
    Spells (Text.isBlank · = true) (openWord.reverse ++ text.takeWhile (· != comment)) tokens := by
  induction text generalizing openWord tokens with
  | nil => exact of_closeWord hopen (fun _ => rfl) .nil h
  | cons c rest ih =>
      by_cases hjoin : openWord ≠ [] ∧ isWordChar c = true
      · -- The character joins the open word.
        have hne := ne_comment hcomment (c := c) (by simp [isSyntax, isWordStart, hjoin.2])
        rw [scan, if_pos (by simpa using hjoin)] at h
        rw [List.takeWhile_cons_of_pos (by simpa using hne)]
        simpa using ih (isOpen_cons hjoin.1 hopen hjoin.2) h
      · have hend : openWord ≠ [] → isWordChar c = false := fun hne => by
          simpa using fun hc => hjoin ⟨hne, hc⟩
        rw [scan, if_neg (by simpa using hjoin)] at h
        split at h
        next hmarker =>
          rw [List.takeWhile_cons_of_neg (by simpa using hmarker)]
          exact of_closeWord hopen (fun _ => rfl) .nil h
        next hmarker =>
          rw [List.takeWhile_cons_of_pos (by simpa using hmarker)]
          split at h
          next mark hmark =>
            obtain ⟨behind, hscan, hclose⟩ := Option.bind_eq_some_iff.1 h
            exact of_closeWord hopen hend (.mark hmark (ih rfl hscan)) hclose
          next =>
            split at h
            next hblank =>
              obtain ⟨behind, hscan, hclose⟩ := Option.bind_eq_some_iff.1 h
              exact of_closeWord hopen hend (.gap hblank (ih rfl hscan)) hclose
            next =>
              split at h
              next hstart =>
                obtain ⟨behind, hscan, hclose⟩ := Option.bind_eq_some_iff.1 h
                have hopen' : isOpen [c] = true := by simpa [isOpen, isWordStart] using hstart
                exact of_closeWord hopen hend (ih hopen' hscan) hclose
              next => cases h

/-- A line whose tokens are found spells them in front of its comment. -/
theorem of_tokenize? (hcomment : InstructionSet.isCommentMarker comment = true)
    (h : tokenize? comment text = some tokens) :
    Spells (Text.isBlank · = true) (text.takeWhile (· != comment)) tokens :=
  of_scan hcomment rfl h

end Spells

end Token

end Asm32
