import Asm32.Assembly.Error
import Asm32.Proofs.LineRoundTrip
import Asm32.Proofs.Consistency
import Mathlib.Computability.Language

/-!
# The grammar of source lines

`Token.lineForm` is the grammar of a line as a language over tokens:

    [name `:`] [name [operand {`,` operand}]]

where an operand is a word or, with indexed addressing, `[word] ( word )`.  A
line is read exactly when its tokens are in the language, and what is read can be
written and read again (`Line.parse_exact`).

Reader and grammar are compared through the lines that can be written, which
`Asm32.Proofs.LineRoundTrip` has with their tokens.  From operands up to lines,
each part has two lemmas:

* the reader answers with a part exactly when the part can be written and has
  the given tokens (`ofTokens?_eq_some_iff`), which makes `Line.parse?_eq_some_iff`;
* the tokens are in the language of the part exactly when they are those of a
  part that can be written (`mem_operandForm_iff` up to `mem_lineForm_iff`).

The tokens of a line are all spelled, and for such tokens both hold.
-/

namespace Asm32

/-! ## The grammar -/

namespace Token

open Computability

/-- The token and nothing else. -/
def only (token : Token) : Language Token :=
  {[token]}

/-- A word that passes a test. -/
def wordsWith (test : String → Bool) : Language Token :=
  {tokens | ∃ text, test text = true ∧ tokens = [.word text]}

/-- Any word. -/
def wordForm : Language Token :=
  wordsWith fun _ => true

/-- A name. -/
def nameForm : Language Token :=
  wordsWith isIdentifier

/-- A word or, where indexed operands are allowed, a word in parentheses behind
an optional word. -/
def operandForm (indexed : Bool) : Language Token :=
  wordForm +
    if indexed then (1 + wordForm) * (only .lparen * (wordForm * only .rparen)) else 0

/-- One or more operands between commas. -/
def operandsForm (indexed : Bool) : Language Token :=
  operandForm indexed * (only .comma * operandForm indexed)∗

/-- A mnemonic with operands or without. -/
def statementForm (indexed : Bool) : Language Token :=
  nameForm * (1 + operandsForm indexed)

/-- A label and a statement, both optional. -/
def lineForm (indexed : Bool) : Language Token :=
  (1 + nameForm * only .colon) * (1 + statementForm indexed)

/-! ## Texts of the grammar -/

variable {form : Language Token} {tokens : List Token}

theorem mem_only_iff {token : Token} : tokens ∈ only token ↔ tokens = [token] := Iff.rfl

theorem mem_wordsWith_iff {test : String → Bool} :
    tokens ∈ wordsWith test ↔ ∃ text, test text = true ∧ tokens = [.word text] := Iff.rfl

theorem mem_only_mul_iff {token : Token} :
    tokens ∈ only token * form ↔ ∃ rest ∈ form, token :: rest = tokens := by
  simp only [Language.mem_mul, mem_only_iff, exists_eq_left, List.singleton_append]

theorem mem_wordsWith_mul_iff {test : String → Bool} :
    tokens ∈ wordsWith test * form ↔
      ∃ text, test text = true ∧ ∃ rest ∈ form, .word text :: rest = tokens := by
  rw [Language.mem_mul]
  constructor
  · rintro ⟨_, ⟨text, htext, rfl⟩, rest, hrest, rfl⟩
    exact ⟨text, htext, rest, hrest, rfl⟩
  · rintro ⟨text, htext, rest, hrest, rfl⟩
    exact ⟨_, ⟨text, htext, rfl⟩, rest, hrest, rfl⟩

/-- The three forms of an operand. -/
theorem mem_operandForm_cases {indexed : Bool} :
    tokens ∈ operandForm indexed ↔
      (∃ word, [.word word] = tokens) ∨
        indexed = true ∧ ((∃ base, [.lparen, .word base, .rparen] = tokens) ∨
          ∃ offset base, [.word offset, .lparen, .word base, .rparen] = tokens) := by
  cases indexed with
  | false => simp [operandForm, wordForm, mem_wordsWith_iff, eq_comm]
  | true =>
      have hparen : ∀ tokens, tokens ∈ only .lparen * (wordForm * only .rparen) ↔
          ∃ base, [.lparen, .word base, .rparen] = tokens := by
        intro tokens
        simp [mem_only_mul_iff, wordForm, mem_wordsWith_mul_iff, mem_only_iff]
      have hoffset : tokens ∈ wordForm * (only .lparen * (wordForm * only .rparen)) ↔
          ∃ offset base, [.word offset, .lparen, .word base, .rparen] = tokens := by
        rw [wordForm, mem_wordsWith_mul_iff, ← wordForm]
        simp [hparen]
      simp only [operandForm, if_true, add_mul, one_mul, Language.mem_add, hparen, hoffset,
        true_and]
      simp [wordForm, mem_wordsWith_iff, eq_comm]

/-- Operands between commas are one operand, or one with a comma and operands
behind it. -/
theorem operandsForm_eq (indexed : Bool) :
    operandsForm indexed =
      operandForm indexed * (1 + only .comma * operandsForm indexed) := by
  rw [operandsForm, ← mul_assoc (only .comma), Language.one_add_self_mul_kstar_eq_kstar]

end Token

/-! ## Operands -/

namespace RawOperand

open Token

variable {indexed : Bool} {tokens : List Token}

theorem ofTokens?_eq_some_iff (hwords : tokens.all isSpelled = true) {raw : RawOperand} :
    ofTokens? indexed tokens = some raw ↔ raw.isWritable indexed = true ∧ raw.tokens = tokens := by
  constructor
  · intro h
    unfold ofTokens? at h
    split at h
    next word =>
      cases h
      exact ⟨by simpa [isSpelled, isWritable] using hwords, rfl⟩
    next base =>
      split at h
      next hindexed =>
        cases h
        exact ⟨by simpa [isSpelled, isWritable, hindexed] using hwords, rfl⟩
      next => cases h
    next offset base =>
      split at h
      next hindexed =>
        cases h
        exact ⟨by simpa [isSpelled, isWritable, hindexed] using hwords, rfl⟩
      next => cases h
    next => cases h
  · rintro ⟨hraw, rfl⟩
    exact ofTokens?_tokens hraw

theorem tokens_mem_operandForm {raw : RawOperand} (h : raw.isWritable indexed = true) :
    raw.tokens ∈ operandForm indexed := by
  rw [mem_operandForm_cases]
  rcases raw with word | ⟨_ | offset, base⟩
  · exact .inl ⟨word, rfl⟩
  · simp only [isWritable, Bool.and_eq_true] at h
    exact .inr ⟨h.1.1, .inl ⟨base, rfl⟩⟩
  · simp only [isWritable, Bool.and_eq_true] at h
    exact .inr ⟨h.1.1, .inr ⟨offset, base, rfl⟩⟩

theorem mem_operandForm_iff (hwords : tokens.all isSpelled = true) :
    tokens ∈ operandForm indexed ↔
      ∃ raw : RawOperand, raw.isWritable indexed = true ∧ raw.tokens = tokens := by
  constructor
  · rw [mem_operandForm_cases]
    rintro (⟨word, rfl⟩ | ⟨hindexed, ⟨base, rfl⟩ | ⟨offset, base, rfl⟩⟩)
    · exact ⟨.plain word, by simpa [isSpelled, isWritable] using hwords, rfl⟩
    · exact ⟨.indexed none base, by simpa [isSpelled, isWritable, hindexed] using hwords, rfl⟩
    · exact ⟨.indexed (some offset) base,
        by simpa [isSpelled, isWritable, hindexed] using hwords, rfl⟩
  · rintro ⟨raw, hraw, rfl⟩
    exact tokens_mem_operandForm hraw

/-- The operands that parts are read as have the parts for their tokens. -/
theorem map_tokens_of_mapM {parts : List (List Token)} {raws : List RawOperand}
    (hwords : ∀ part ∈ parts, part.all isSpelled = true)
    (h : parts.mapM (ofTokens? indexed) = some raws) :
    (∀ raw ∈ raws, raw.isWritable indexed = true) ∧ raws.map RawOperand.tokens = parts := by
  induction parts generalizing raws with
  | nil =>
      cases h
      simp
  | cons part parts ih =>
      rw [List.forall_mem_cons] at hwords
      simp only [List.mapM_cons, Option.bind_eq_bind, Option.bind_eq_some_iff, Option.pure_def,
        Option.some.injEq] at h
      obtain ⟨raw, hraw, rest, hrest, rfl⟩ := h
      obtain ⟨hwritable, rfl⟩ := (ofTokens?_eq_some_iff hwords.1).1 hraw
      obtain ⟨hwritables, rfl⟩ := ih hwords.2 hrest
      exact ⟨List.forall_mem_cons.2 ⟨hwritable, hwritables⟩, rfl⟩

theorem listOfTokens?_eq_some_iff (hwords : tokens.all isSpelled = true) {raws : List RawOperand} :
    listOfTokens? indexed tokens = some raws ↔
      (∀ raw ∈ raws, raw.isWritable indexed = true) ∧
        List.intercalate [.comma] (raws.map RawOperand.tokens) = tokens := by
  constructor
  · intro h
    unfold listOfTokens? at h
    split at h
    next =>
      cases h
      simp
    next =>
      obtain ⟨hwritable, hparts⟩ :=
        map_tokens_of_mapM (fun part hpart => Text.all_of_mem_cutAt hwords hpart) h
      exact ⟨hwritable, by rw [hparts, Text.intercalate_cutAt]⟩
  · rintro ⟨hraws, rfl⟩
    exact listOfTokens?_tokens hraws

theorem mem_operandsForm_iff (hwords : tokens.all isSpelled = true) :
    tokens ∈ operandsForm indexed ↔
      ∃ raws : List RawOperand, raws ≠ [] ∧ (∀ raw ∈ raws, raw.isWritable indexed = true) ∧
        List.intercalate [.comma] (raws.map RawOperand.tokens) = tokens := by
  constructor
  · intro h
    rw [operandsForm, Language.mem_mul] at h
    obtain ⟨first, hfirst, rest, hrest, rfl⟩ := h
    obtain ⟨parts, rfl, hparts⟩ := Language.mem_kstar.1 hrest
    clear hrest
    -- Each part is a comma and an operand.
    induction parts generalizing first with
    | nil =>
        rw [List.flatten_nil, List.append_nil] at hwords ⊢
        obtain ⟨raw, hraw, rfl⟩ := (mem_operandForm_iff hwords).1 hfirst
        exact ⟨[raw], by simp, by simpa using hraw, by simp⟩
    | cons part parts ih =>
        rw [List.forall_mem_cons] at hparts
        obtain ⟨next, hnext, rfl⟩ := mem_only_mul_iff.1 hparts.1
        simp only [List.flatten_cons, List.cons_append, List.all_append, List.all_cons,
          Bool.and_eq_true] at hwords
        obtain ⟨raw, hraw, rfl⟩ := (mem_operandForm_iff hwords.1).1 hfirst
        obtain ⟨raws, hne, hraws, htokens⟩ := ih next hnext hparts.2 (by simpa using hwords.2.2)
        refine ⟨raw :: raws, by simp, List.forall_mem_cons.2 ⟨hraw, hraws⟩, ?_⟩
        rw [List.map_cons, List.intercalate_cons_of_ne_nil (by simpa using hne), htokens]
        simp
  · rintro ⟨raws, hne, hraws, rfl⟩
    clear hwords
    induction raws with
    | nil => exact absurd rfl hne
    | cons raw rest ih =>
        rw [List.forall_mem_cons] at hraws
        have hraw := tokens_mem_operandForm hraws.1
        rw [operandsForm_eq, mul_add, mul_one, Language.mem_add, List.map_cons]
        by_cases hrest : rest = []
        · left
          simpa [hrest] using hraw
        · right
          rw [List.intercalate_cons_of_ne_nil (by simpa using hrest), List.append_assoc]
          exact Language.append_mem_mul hraw (mem_only_mul_iff.2 ⟨_, ih hrest hraws.2, rfl⟩)

end RawOperand

/-! ## Statements -/

namespace Statement

open Token

variable {indexed : Bool} {tokens : List Token}

theorem ofTokens?_eq_some_iff (hwords : tokens.all isSpelled = true)
    {statement : Option Statement} :
    ofTokens? indexed tokens = some statement ↔
      statement.all (isWritable indexed) = true ∧ statement.elim [] Statement.tokens = tokens := by
  constructor
  · intro h
    unfold ofTokens? at h
    split at h
    next =>
      cases h
      exact ⟨rfl, rfl⟩
    next mnemonic rest =>
      split at h
      next hname =>
        obtain ⟨raws, hraws, rfl⟩ := Option.map_eq_some_iff.1 h
        rw [List.all_cons, Bool.and_eq_true] at hwords
        obtain ⟨hwritable, rfl⟩ := (RawOperand.listOfTokens?_eq_some_iff hwords.2).1 hraws
        exact ⟨by simpa [isWritable, hname] using hwritable, rfl⟩
      next => cases h
    next => cases h
  · rintro ⟨hstatement, rfl⟩
    cases statement with
    | none => rfl
    | some s => exact ofTokens?_tokens hstatement

theorem mem_statementForm_iff (hwords : tokens.all isSpelled = true) :
    tokens ∈ statementForm indexed ↔
      ∃ s : Statement, s.isWritable indexed = true ∧ s.tokens = tokens := by
  rw [statementForm, nameForm, mem_wordsWith_mul_iff]
  constructor
  · rintro ⟨mnemonic, hname, rest, hrest, rfl⟩
    rw [List.all_cons, Bool.and_eq_true] at hwords
    rcases (Language.mem_add _ _ _).1 hrest with hnone | hoperands
    · obtain rfl := (Language.mem_one _).1 hnone
      exact ⟨⟨mnemonic, []⟩, by simp [isWritable, hname], by simp [Statement.tokens]⟩
    · obtain ⟨raws, _, hraws, rfl⟩ := (RawOperand.mem_operandsForm_iff hwords.2).1 hoperands
      exact ⟨⟨mnemonic, raws⟩, by simpa [isWritable, hname] using hraws, rfl⟩
  · rintro ⟨⟨mnemonic, raws⟩, hs, rfl⟩
    rw [Statement.tokens, List.all_cons, Bool.and_eq_true] at hwords
    rw [isWritable, Bool.and_eq_true, List.all_eq_true] at hs
    refine ⟨mnemonic, hs.1, _, ?_, rfl⟩
    rw [Language.mem_add]
    by_cases hraws : raws = []
    · left
      rw [Language.mem_one, hraws]
      simp
    · right
      exact (RawOperand.mem_operandsForm_iff hwords.2).2 ⟨raws, hraws, hs.2, rfl⟩

end Statement

/-! ## Lines -/

namespace Line

open Token

variable {indexed : Bool} {tokens : List Token}

/-- Cutting a label off loses no token, and the label is a name. -/
theorem splitLabel_cases (tokens : List Token) :
    (splitLabel tokens).1.all isIdentifier = true ∧
      ((splitLabel tokens).1.elim [] fun name => [.word name, .colon]) ++ (splitLabel tokens).2 =
        tokens := by
  unfold splitLabel
  split
  · split
    next hname => exact ⟨hname, rfl⟩
    next => exact ⟨rfl, rfl⟩
  · exact ⟨rfl, rfl⟩

theorem ofTokens?_eq_some_iff (hwords : tokens.all isSpelled = true) {line : Line} :
    ofTokens? indexed tokens = some line ↔
      line.isWritable indexed = true ∧ line.tokens = tokens := by
  constructor
  · intro h
    obtain ⟨statement, hstatement, rfl⟩ := Option.map_eq_some_iff.1 h
    obtain ⟨hname, hsplit⟩ := splitLabel_cases tokens
    rw [← hsplit, List.all_append, Bool.and_eq_true] at hwords
    obtain ⟨hwritable, htokens⟩ := (Statement.ofTokens?_eq_some_iff hwords.2).1 hstatement
    exact ⟨by rw [isWritable, hname, hwritable, Bool.and_self],
      by rw [Line.tokens, htokens, hsplit]⟩
  · rintro ⟨hline, rfl⟩
    exact ofTokens?_tokens hline

theorem mem_label_iff :
    tokens ∈ 1 + nameForm * only .colon ↔
      ∃ label : Option String, label.all isIdentifier = true ∧
        (label.elim [] fun name => [.word name, .colon]) = tokens := by
  rw [Language.mem_add, Language.mem_one, nameForm, mem_wordsWith_mul_iff]
  constructor
  · rintro (rfl | ⟨name, hname, rest, hrest, rfl⟩)
    · exact ⟨none, rfl, rfl⟩
    · obtain rfl := mem_only_iff.1 hrest
      exact ⟨some name, hname, rfl⟩
  · rintro ⟨_ | name, hname, rfl⟩
    · exact .inl rfl
    · exact .inr ⟨name, hname, [.colon], rfl, rfl⟩

theorem mem_optional_statement_iff (hwords : tokens.all isSpelled = true) :
    tokens ∈ 1 + statementForm indexed ↔
      ∃ statement : Option Statement, statement.all (Statement.isWritable indexed) = true ∧
        statement.elim [] Statement.tokens = tokens := by
  rw [Language.mem_add, Language.mem_one, Statement.mem_statementForm_iff hwords]
  constructor
  · rintro (rfl | ⟨s, hs, rfl⟩)
    · exact ⟨none, rfl, rfl⟩
    · exact ⟨some s, hs, rfl⟩
  · rintro ⟨_ | s, hs, rfl⟩
    · exact .inl rfl
    · exact .inr ⟨s, hs, rfl⟩

theorem mem_lineForm_iff (hwords : tokens.all isSpelled = true) :
    tokens ∈ lineForm indexed ↔
      ∃ line : Line, line.isWritable indexed = true ∧ line.tokens = tokens := by
  rw [lineForm, Language.mem_mul]
  constructor
  · rintro ⟨front, hfront, rest, hrest, rfl⟩
    rw [List.all_append, Bool.and_eq_true] at hwords
    obtain ⟨label, hlabel, rfl⟩ := mem_label_iff.1 hfront
    obtain ⟨statement, hstatement, rfl⟩ := (mem_optional_statement_iff hwords.2).1 hrest
    exact ⟨⟨label, statement⟩, by rw [isWritable, hlabel, hstatement, Bool.and_self], rfl⟩
  · rintro ⟨⟨label, statement⟩, hline, rfl⟩
    rw [isWritable, Bool.and_eq_true] at hline
    rw [Line.tokens, List.all_append, Bool.and_eq_true] at hwords
    exact ⟨_, mem_label_iff.2 ⟨label, hline.1, rfl⟩, _,
      (mem_optional_statement_iff hwords.2).2 ⟨statement, hline.2, rfl⟩, rfl⟩

/-! ## Texts of lines -/

variable {isa : InstructionSet}

/-- A text is read as a line exactly when the line can be written and has the
tokens of the text. -/
theorem parse?_eq_some_iff (hcomment : InstructionSet.isCommentMarker isa.comment = true)
    {text : List Char} {line : Line} :
    parse? isa text = some line ↔
      line.isWritable isa.indexed = true ∧ tokenize? isa.comment text = some line.tokens := by
  rw [parse?, Option.bind_eq_some_iff]
  constructor
  · rintro ⟨tokens, htokens, hline⟩
    have hwords := (Spells.of_tokenize? hcomment htokens).all_isSpelled
    obtain ⟨hwritable, rfl⟩ := (ofTokens?_eq_some_iff hwords).1 hline
    exact ⟨hwritable, htokens⟩
  · rintro ⟨hwritable, htokens⟩
    exact ⟨line.tokens, htokens, ofTokens?_tokens hwritable⟩

theorem parse_eq_ok_iff {number : Nat} {text : List Char} {line : Line} :
    Line.parse isa number text = .ok line ↔ parse? isa text = some line := by
  unfold Line.parse
  cases parse? isa text <;> simp

/-- A line is read exactly when its tokens have the form of a line, and the only
failure is a syntax error with its number.  What is read has the tokens of the
text and is read again from its written form, as is every line that can be
written. -/
theorem parse_exact (hvalid : isa.validate = .ok ()) (number : Nat) :
    (∀ text, (∃ line, Line.parse isa number text = .ok line) ↔
      ∃ tokens, tokenize? isa.comment text = some tokens ∧ tokens ∈ lineForm isa.indexed) ∧
    (∀ text e, Line.parse isa number text = .error e → e = .syntaxError number) ∧
    (∀ text line, Line.parse isa number text = .ok line →
      tokenize? isa.comment text = some line.tokens ∧
        Line.parse isa number line.render.toList = .ok line) ∧
    ∀ line : Line, line.isWritable isa.indexed = true →
      Line.parse isa number line.render.toList = .ok line := by
  have hcomment := (InstructionSet.validate_eq_ok_iff.1 hvalid).comment
  simp only [parse_eq_ok_iff]
  refine ⟨fun text => ?_, fun text e he => ?_, fun text line hline => ?_, fun line hline => ?_⟩
  · simp only [parse?_eq_some_iff hcomment]
    constructor
    · rintro ⟨line, hwritable, htokens⟩
      have hwords := (Spells.of_tokenize? hcomment htokens).all_isSpelled
      exact ⟨line.tokens, htokens, (mem_lineForm_iff hwords).2 ⟨line, hwritable, rfl⟩⟩
    · rintro ⟨tokens, htokens, hform⟩
      have hwords := (Spells.of_tokenize? hcomment htokens).all_isSpelled
      obtain ⟨line, hwritable, rfl⟩ := (mem_lineForm_iff hwords).1 hform
      exact ⟨line, hwritable, htokens⟩
  · unfold Line.parse at he
    split at he
    next => cases he
    next =>
      cases he
      rfl
  · obtain ⟨hwritable, htokens⟩ := (parse?_eq_some_iff hcomment).1 hline
    exact ⟨htokens, parse?_render hcomment hwritable⟩
  · exact parse?_render hcomment hline

/-- A line with blanks in odd places and a comment is read as the line that is
written without them, and two commas in a row are in no form of a line. -/
theorem parse_exact_load :
    Line.parse .extended 7 "loop :ld r1 ,-4 ( r2);x".toList =
        .ok ⟨some "loop", some ⟨"ld", [.plain "r1", .indexed (some "-4") "r2"]⟩⟩ ∧
      Line.parse .extended 7 "loop: ld r1, -4(r2)".toList =
        .ok ⟨some "loop", some ⟨"ld", [.plain "r1", .indexed (some "-4") "r2"]⟩⟩ ∧
      ¬ ∃ tokens, tokenize? InstructionSet.extended.comment "add r1,, r2".toList = some tokens ∧
        tokens ∈ lineForm InstructionSet.extended.indexed := by
  have hvalid : InstructionSet.extended.validate = .ok () :=
    InstructionSet.validate_ofVariant .extended
  obtain ⟨hform, _, hagain, _⟩ := parse_exact hvalid 7
  have hread : Line.parse .extended 7 "loop :ld r1 ,-4 ( r2);x".toList =
      .ok ⟨some "loop", some ⟨"ld", [.plain "r1", .indexed (some "-4") "r2"]⟩⟩ := rfl
  refine ⟨hread, (hagain _ _ hread).2, fun htokens => ?_⟩
  obtain ⟨line, hline⟩ := (hform _).2 htokens
  cases hline

end Line

end Asm32
