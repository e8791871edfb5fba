import Asm32.Proofs.Consistency
import Asm32.Proofs.Spelling

/-!
# The tokens of a line

Which lines have tokens, and what the tokens keep of the line.  Only the part of
a line in front of its comment counts.

* `Token.Unreadable` says what a text must not have: a character outside the
  syntax, or a sign that is not directly followed by a word character.  All
  other texts spell tokens (`exists_spells_iff`).
* The tokens of a line are those that the part in front of the comment spells
  (`tokenize?_eq_some_iff`).  They have its characters in order, less the blanks
  (`Spells.flatMap_spelling`), and they are spelled again with single spaces
  between them (`spells_spaced`).
* `tokenize?_exact` has these facts together, for every validated set.
-/

namespace Asm32.Token

/-! ## Unreadable texts -/

/-- Whether a character has no place in front of a comment: it is no blank, no
mark and no part of a word. -/
def isForeign (c : Char) : Bool :=
  !Text.isBlank c && !List.contains [':', ',', '(', ')'] c && !isWordChar c && !isSign c

/-- What makes a text unreadable. -/
inductive Unreadable (text : List Char) : Prop where
  /-- The text has a character from outside the syntax. -/
  | foreign {c} (hmem : c ∈ text) (hc : isForeign c = true)
  /-- The text has a sign with no word character directly behind it. -/
  | loneSign {sign behind} (hsuffix : sign :: behind <:+ text) (hsign : isSign sign = true)
      (hend : continuesWord behind = false)

theorem Unreadable.of_suffix {text rest : List Char} (hsuffix : rest <:+ text)
    (h : Unreadable rest) : Unreadable text := by
  cases h with
  | foreign hmem hc => exact .foreign (hsuffix.subset hmem) hc
  | loneSign hrest hsign hend => exact .loneSign (hrest.trans hsuffix) hsign hend

theorem isSome_ofMark? (c : Char) : (ofMark? c).isSome = [':', ',', '(', ')'].contains c := by
  unfold ofMark?
  split
  case h_5 hcolon hcomma hleft hright =>
    have hmem : c ∉ [':', ',', '(', ')'] := by
      simp only [List.mem_cons, List.not_mem_nil, or_false, not_or]
      exact ⟨hcolon, hcomma, hleft, hright⟩
    simpa using hmem
  all_goals rfl

theorem isForeign_eq_not_isSyntax (c : Char) : isForeign c = !isSyntax c := by
  rw [isForeign, isSyntax, isWordStart, isSome_ofMark?]
  cases Text.isBlank c <;> cases isWordChar c <;> cases isSign c <;> simp

/-! ## Readable texts -/

theorem isWordStart_of_isSign {c : Char} (h : isSign c = true) : isWordStart c = true := by
  rw [isWordStart, h, Bool.or_true]

theorem continuesWord_dropWhile (text : List Char) :
    continuesWord (text.dropWhile isWordChar) = false := by
  induction text with
  | nil => rfl
  | cons c rest ih =>
      by_cases hc : isWordChar c = true
      · rw [List.dropWhile_cons_of_pos hc, ih]
      · rw [List.dropWhile_cons_of_neg hc]
        simpa [continuesWord] using hc

/-- The start of a word and the word characters behind it are a word, unless they
are a sign alone. -/
theorem isWord_takeWhile {c : Char} {rest : List Char} (hstart : isWordStart c = true)
    (hsign : isSign c = true → continuesWord rest = true) :
    isWord (String.ofList (c :: rest.takeWhile isWordChar)) = true := by
  rw [isWordStart, Bool.or_eq_true] at hstart
  simp only [isWord, String.toList_ofList, List.all_takeWhile, Bool.true_and, Bool.or_eq_true,
    Bool.and_eq_true, Bool.not_eq_true']
  refine hstart.imp_right fun hc => ⟨hc, ?_⟩
  have hnext := hsign hc
  cases rest with
  | nil => cases hnext
  | cons d rest =>
      have hd : isWordChar d = true := hnext
      rw [List.takeWhile_cons_of_pos hd]
      rfl

/-- A text that is not unreadable spells tokens. -/
theorem exists_spells {text : List Char} (h : ¬ Unreadable text) :
    ∃ tokens, Spells (Text.isBlank · = true) text tokens := by
  -- Induction on the length: a blank, a mark or a whole word is taken off the text at a time.
  induction hlength : text.length using Nat.strongRecOn generalizing text with
  | ind n ih =>
      cases text with
      | nil => exact ⟨[], .nil⟩
      | cons c rest =>
          have hbehind : ∀ {behind}, behind <:+ rest →
              ∃ tokens, Spells (Text.isBlank · = true) behind tokens := by
            intro behind hsuffix
            have hle := hsuffix.length_le
            rw [List.length_cons] at hlength
            refine ih behind.length (by omega) (fun hbad => ?_) rfl
            exact h (hbad.of_suffix (hsuffix.trans (List.suffix_cons c rest)))
          have hsyntax : isSyntax c = true := by
            by_contra hforeign
            refine h (.foreign List.mem_cons_self (c := c) ?_)
            simpa [isForeign_eq_not_isSyntax] using hforeign
          simp only [isSyntax, Bool.or_eq_true] at hsyntax
          rcases hsyntax with (hstart | hmark) | hblank
          · have hsign : isSign c = true → continuesWord rest = true := by
              intro hc
              by_contra hend
              exact h (.loneSign List.suffix_rfl hc (by simpa using hend))
            obtain ⟨tokens, htokens⟩ := hbehind (List.dropWhile_suffix isWordChar)
            have hspells := Spells.word (isWord_takeWhile hstart hsign)
              (continuesWord_dropWhile rest) htokens
            rw [String.toList_ofList, List.cons_append, List.takeWhile_append_dropWhile] at hspells
            exact ⟨_, hspells⟩
          · obtain ⟨mark, hmark⟩ := Option.isSome_iff_exists.1 hmark
            obtain ⟨tokens, htokens⟩ := hbehind List.suffix_rfl
            exact ⟨mark :: tokens, .mark hmark htokens⟩
          · obtain ⟨tokens, htokens⟩ := hbehind List.suffix_rfl
            exact ⟨tokens, .gap hblank htokens⟩

/-- A sign is no word character, so it stands behind the word characters in front. -/
theorem sign_suffix_of_append {chars text behind : List Char} {sign : Char}
    (hchars : ∀ c ∈ chars, isWordChar c = true) (hsign : isSign sign = true)
    (h : sign :: behind <:+ chars ++ text) : sign :: behind <:+ text := by
  induction chars with
  | nil => exact h
  | cons c rest ih =>
      rw [List.forall_mem_cons] at hchars
      rcases List.suffix_cons_iff.1 h with hsame | hrest
      · cases hsame
        rw [isSign_eq_false_of_isWordChar hchars.1] at hsign
        cases hsign
      · exact ih hchars.2 hrest

namespace Spells

variable {text : List Char} {tokens : List Token}

/-- In a text that spells tokens every sign is directly followed by a word
character. -/
theorem continuesWord_of_sign (h : Spells (Text.isBlank · = true) text tokens) {sign : Char}
    {behind : List Char} (hsuffix : sign :: behind <:+ text) (hsign : isSign sign = true) :
    continuesWord behind = true := by
  induction h with
  | nil => simp at hsuffix
  | gap hgap _ ih =>
      rcases List.suffix_cons_iff.1 hsuffix with hsame | hrest
      · cases hsame
        rw [isBlank_eq_false_of_isWordStart (isWordStart_of_isSign hsign)] at hgap
        cases hgap
      · exact ih hrest
  | mark hmark _ ih =>
      rcases List.suffix_cons_iff.1 hsuffix with hsame | hrest
      · cases hsame
        rw [ofMark?_eq_none (by decide) hsign] at hmark
        cases hmark
      · exact ih hrest
  | word hword _ _ ih =>
      obtain ⟨c, rest, htext, _, hrest, hlone⟩ := exists_cons_of_isWord hword
      rw [htext, List.cons_append] at hsuffix
      rcases List.suffix_cons_iff.1 hsuffix with hsame | hsuffix
      · cases hsame
        -- The sign starts the word, which goes on with `rest`.
        cases rest with
        | nil =>
            rw [hlone rfl] at hsign
            cases hsign
        | cons d rest => exact hrest d List.mem_cons_self
      · exact ih (sign_suffix_of_append hrest hsign hsuffix)

theorem not_unreadable (h : Spells (Text.isBlank · = true) text tokens) : ¬ Unreadable text := by
  rintro (⟨hmem, hforeign⟩ | ⟨hsuffix, hsign, hend⟩)
  · rw [isForeign_eq_not_isSyntax, Bool.not_eq_true', isSyntax, Bool.or_eq_false_iff,
      Bool.or_eq_false_iff, Option.isSome_eq_false_iff, Option.isNone_iff_eq_none] at hforeign
    obtain ⟨⟨hstart, hmark⟩, hblank⟩ := hforeign
    have hgap := h.isGap_of_mem hmem hstart hmark
    rw [hblank] at hgap
    cases hgap
  · rw [h.continuesWord_of_sign hsuffix hsign] at hend
    cases hend

end Spells

theorem exists_spells_iff {text : List Char} :
    (∃ tokens, Spells (Text.isBlank · = true) text tokens) ↔ ¬ Unreadable text := by
  constructor
  · rintro ⟨tokens, htokens⟩
    exact htokens.not_unreadable
  · exact exists_spells

/-! ## Spellings -/

theorem isBlank_eq_false_of_ofMark? {c : Char} {mark : Token} (h : ofMark? c = some mark) :
    Text.isBlank c = false := by
  rw [Bool.eq_false_iff]
  intro hblank
  rw [ofMark?_eq_none (by decide) hblank] at h
  cases h

theorem toList_spelling_of_ofMark? {c : Char} {mark : Token} (h : ofMark? c = some mark) :
    mark.spelling.toList = [c] := by
  unfold ofMark? at h
  split at h <;> cases h <;> rfl

/-- The spellings of the tokens are the text without its blanks. -/
theorem Spells.flatMap_spelling {text : List Char} {tokens : List Token}
    (h : Spells (Text.isBlank · = true) text tokens) :
    tokens.flatMap (·.spelling.toList) = text.filter (!Text.isBlank ·) := by
  induction h with
  | nil => rfl
  | gap hgap _ ih => rw [List.filter_cons_of_neg (by simpa using hgap), ih]
  | mark hmark _ ih =>
      rw [List.flatMap_cons, ih, toList_spelling_of_ofMark? hmark,
        List.filter_cons_of_pos (by simp [isBlank_eq_false_of_ofMark? hmark])]
      rfl
  | @word word _ _ hword _ _ ih =>
      have hkept : word.toList.filter (!Text.isBlank ·) = word.toList := by
        rw [List.filter_eq_self]
        intro c hmem
        rw [isBlank_eq_false_of_isWordStart (isWordStart_of_mem hword hmem)]
        rfl
      rw [List.flatMap_cons, ih, List.filter_append, hkept, spelling]

/-- A word is a name, with one sign in front or without one. -/
theorem exists_sign_of_isWord {text : String} (h : isWord text = true) :
    ∃ sign name, text = sign ++ name ∧ sign ∈ ["", "-", "+"] ∧ isIdentifier name = true := by
  obtain ⟨c, rest, htext, hstart, hrest, hlone⟩ := exists_cons_of_isWord h
  have hrest : rest.all isWordChar = true := List.all_eq_true.2 hrest
  rw [isWordStart, Bool.or_eq_true] at hstart
  rcases hstart with hchar | hsign
  · refine ⟨"", text, by simp, by simp, ?_⟩
    rw [isIdentifier, htext, List.all_cons, hchar, hrest]
    rfl
  · refine ⟨String.ofList [c], String.ofList rest, ?_, ?_, ?_⟩
    · rw [← String.ofList_append, List.singleton_append, ← htext, String.ofList_toList]
    · simp only [isSign, Bool.or_eq_true, beq_iff_eq] at hsign
      rcases hsign with rfl | rfl <;> decide
    · have hne : rest ≠ [] := by
        intro hempty
        rw [hlone hempty] at hsign
        cases hsign
      rw [isIdentifier, String.toList_ofList, hrest]
      simpa using hne

theorem spells_spelling {isGap : Char → Prop} {token : Token} (h : token.isSpelled = true) :
    Spells isGap token.spelling.toList [token] := by
  cases token with
  | word text => exact .single h
  | colon => exact .mark rfl .nil
  | comma => exact .mark rfl .nil
  | lparen => exact .mark rfl .nil
  | rparen => exact .mark rfl .nil

/-- The spellings of tokens with a space between each two. -/
def spaced (tokens : List Token) : List Char :=
  List.intercalate [' '] (tokens.map (·.spelling.toList))

/-- Tokens are spelled by their spellings with spaces between them. -/
theorem spells_spaced {tokens : List Token} (h : tokens.all isSpelled = true) :
    Spells (· = ' ') (spaced tokens) tokens := by
  unfold spaced
  induction tokens with
  | nil => exact .nil
  | cons token rest ih =>
      rw [List.all_cons, Bool.and_eq_true] at h
      have htoken : Spells (· = ' ') token.spelling.toList [token] := spells_spelling h.1
      cases rest with
      | nil => simpa using htoken
      | cons next rest =>
          rw [List.map_cons, List.map_cons, List.intercalate_cons_cons, List.append_assoc]
          exact htoken.append rfl (.gap rfl (ih h.2))

/-! ## Tokens of a line -/

/-- The tokens of a line are those that the part in front of the comment spells. -/
theorem tokenize?_eq_some_iff {comment : Char}
    (hcomment : InstructionSet.isCommentMarker comment = true) {line : List Char}
    {tokens : List Token} :
    tokenize? comment line = some tokens ↔
      Spells (Text.isBlank · = true) (line.takeWhile (· != comment)) tokens := by
  constructor
  · exact Spells.of_tokenize? hcomment
  · intro hspells
    have htokens := hspells.tokenize?_eq hcomment (fun _ hblank => hblank)
    rwa [tokenize?, scan_takeWhile hcomment] at htokens

theorem tokenize?_eq_none_iff {comment : Char}
    (hcomment : InstructionSet.isCommentMarker comment = true) {line : List Char} :
    tokenize? comment line = none ↔ Unreadable (line.takeWhile (· != comment)) := by
  rw [← not_iff_not, ← exists_spells_iff, ← ne_eq, Option.ne_none_iff_exists']
  simp only [tokenize?_eq_some_iff hcomment]

/-- A line has tokens unless the part in front of its comment is unreadable.  The
tokens are that part in order, less the blanks, with words as long as they can
be; each word is a name with one sign at most; and with a space between each two
the tokens are read again. -/
theorem tokenize?_exact {isa : InstructionSet} (hvalid : isa.validate = .ok ())
    (line : List Char) :
    (tokenize? isa.comment line = none ↔ Unreadable (line.takeWhile (· != isa.comment))) ∧
    ∀ tokens, tokenize? isa.comment line = some tokens →
      Spells (Text.isBlank · = true) (line.takeWhile (· != isa.comment)) tokens ∧
      tokens.flatMap (·.spelling.toList) =
        (line.takeWhile (· != isa.comment)).filter (!Text.isBlank ·) ∧
      (∀ text, .word text ∈ tokens → ∃ sign name,
        text = sign ++ name ∧ sign ∈ ["", "-", "+"] ∧ isIdentifier name = true) ∧
      tokenize? isa.comment (spaced tokens) = some tokens := by
  have hcomment := (InstructionSet.validate_eq_ok_iff.1 hvalid).comment
  refine ⟨tokenize?_eq_none_iff hcomment, fun tokens htokens => ?_⟩
  have hspells := (tokenize?_eq_some_iff hcomment).1 htokens
  have hwords := hspells.all_isSpelled
  refine ⟨hspells, hspells.flatMap_spelling, fun text hmem => ?_, ?_⟩
  · exact exists_sign_of_isWord (List.all_eq_true.1 hwords _ hmem)
  · refine (spells_spaced hwords).tokenize?_eq hcomment ?_
    intro c hc
    rw [hc]
    decide

/-- A sign starts a new word in the middle of a run, and what is behind the comment
marker does not count; a sign in front of a space cannot be read. -/
theorem tokenize?_exact_signs :
    tokenize? InstructionSet.extended.comment "k:ld r2-1,+4\u00a0(r1);-".toList =
        some [.word "k", .colon, .word "ld", .word "r2", .word "-1", .comma, .word "+4", .lparen,
          .word "r1", .rparen] ∧
      tokenize? InstructionSet.extended.comment "k : ld r2 -1 , +4 ( r1 )".toList =
        some [.word "k", .colon, .word "ld", .word "r2", .word "-1", .comma, .word "+4", .lparen,
          .word "r1", .rparen] ∧
      tokenize? InstructionSet.extended.comment "r2 - 1".toList = none := by
  have hvalid : InstructionSet.extended.validate = .ok () :=
    InstructionSet.validate_ofVariant .extended
  have hread : tokenize? InstructionSet.extended.comment "k:ld r2-1,+4\u00a0(r1);-".toList =
      some [.word "k", .colon, .word "ld", .word "r2", .word "-1", .comma, .word "+4", .lparen,
        .word "r1", .rparen] := rfl
  have hlone : Unreadable ("r2 - 1".toList.takeWhile (· != InstructionSet.extended.comment)) :=
    @Unreadable.loneSign _ '-' " 1".toList ⟨"r2 ".toList, rfl⟩ rfl rfl
  refine ⟨hread, ?_, ?_⟩
  · exact ((tokenize?_exact hvalid _).2 _ hread).2.2.2
  · exact (tokenize?_exact hvalid _).1.2 hlone

end Asm32.Token
