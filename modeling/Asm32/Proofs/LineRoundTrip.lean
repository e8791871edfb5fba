import Asm32.Proofs.Spelling
import Asm32.Source.Line

/-!
# Lines that are written and read

A line can be written when its label and mnemonic are names, the words of its
operands are words, and indexed operands are allowed.  `Line.render` then gives
a text that `Line.parse?` reads back.

Both sides meet at the tokens of a line, `Line.tokens`: they are what the text
spells (`Line.spells_render`) and what the line is read from
(`Line.ofTokens?_tokens`).
-/

namespace Asm32

/-! ## Operands -/

namespace RawOperand

/-- Whether an operand can be written: it is made of words, and it is indexed
only where that is allowed. -/
def isWritable (indexed : Bool) : RawOperand → Bool
  | .plain word => Token.isWord word
  | .indexed offset base => indexed && offset.all Token.isWord && Token.isWord base

/-- The tokens of an operand. -/
def tokens : RawOperand → List Token
  | .plain word => [.word word]
  | .indexed none base => [.lparen, .word base, .rparen]
  | .indexed (some offset) base => [.word offset, .lparen, .word base, .rparen]

theorem ofTokens?_tokens {indexed : Bool} {raw : RawOperand} (h : raw.isWritable indexed = true) :
    ofTokens? indexed raw.tokens = some raw := by
  cases raw with
  | plain word => rfl
  | indexed offset base =>
      simp only [isWritable, Bool.and_eq_true] at h
      cases offset <;> simp [tokens, ofTokens?, h.1.1]

theorem comma_not_mem_tokens (raw : RawOperand) : Token.comma ∉ raw.tokens := by
  rcases raw with word | ⟨_ | offset, base⟩ <;> simp [tokens]

/-- Operands between commas never start with a colon, so a mnemonic in front of
them is not taken for a label. -/
theorem intercalate_tokens_ne_colon (raws : List RawOperand) (others : List Token) :
    List.intercalate [.comma] (raws.map tokens) ≠ .colon :: others := by
  cases raws with
  | nil => simp
  | cons raw rest =>
      cases rest with
      | nil => rcases raw with word | ⟨_ | offset, base⟩ <;> simp [tokens]
      | cons next rest =>
          rcases raw with word | ⟨_ | offset, base⟩ <;> simp [tokens, List.intercalate_cons_cons]

/-- Operands between commas are read one by one. -/
theorem listOfTokens?_tokens {indexed : Bool} {raws : List RawOperand}
    (h : ∀ raw ∈ raws, raw.isWritable indexed = true) :
    listOfTokens? indexed (List.intercalate [.comma] (raws.map tokens)) = some raws := by
  have hread : (raws.map tokens).mapM (ofTokens? indexed) = some raws := by
    induction raws with
    | nil => rfl
    | cons raw rest ih =>
        rw [List.forall_mem_cons] at h
        simp [ofTokens?_tokens h.1, ih h.2]
  cases raws with
  | nil => rfl
  | cons raw rest =>
      have hcut : Text.cutAt (· == .comma) (List.intercalate [.comma] ((raw :: rest).map tokens)) =
          (raw :: rest).map tokens := by
        apply Text.cutAt_intercalate
        · intro part hpart
          obtain ⟨raw', _, rfl⟩ := List.mem_map.1 hpart
          exact comma_not_mem_tokens raw'
        · simp
      unfold listOfTokens?
      split
      next hnil =>
        -- The first operand would have no tokens, and nothing reads as an operand.
        rw [hnil, List.map_cons, Text.cutAt, List.cons.injEq] at hcut
        have hempty := ofTokens?_tokens (h raw List.mem_cons_self)
        rw [← hcut.1] at hempty
        cases hempty
      next => rw [hcut, hread]

/-- The text of an operand spells its tokens. -/
theorem spells_text {isGap : Char → Prop} {indexed : Bool} {raw : RawOperand}
    (h : raw.isWritable indexed = true) : Token.Spells isGap raw.text.toList raw.tokens := by
  cases raw with
  | plain word => exact .single h
  | indexed offset base =>
      simp only [isWritable, Bool.and_eq_true] at h
      have hbase : Token.Spells isGap ('(' :: base.toList ++ [')'])
          [.lparen, .word base, .rparen] :=
        .mark rfl (.word h.2 rfl (.mark rfl .nil))
      cases offset with
      | none => simpa [text, tokens] using hbase
      | some offset => simpa [text, tokens] using Token.Spells.word h.1.2 rfl hbase

end RawOperand

/-! ## Statements -/

namespace Statement

/-- Whether a statement can be written. -/
def isWritable (indexed : Bool) (s : Statement) : Bool :=
  isIdentifier s.mnemonic && s.operands.all (RawOperand.isWritable indexed)

/-- The tokens of a statement. -/
def tokens (s : Statement) : List Token :=
  .word s.mnemonic :: List.intercalate [.comma] (s.operands.map RawOperand.tokens)

theorem ofTokens?_tokens {indexed : Bool} {s : Statement} (h : s.isWritable indexed = true) :
    ofTokens? indexed s.tokens = some (some s) := by
  rw [isWritable, Bool.and_eq_true, List.all_eq_true] at h
  rw [tokens, ofTokens?, if_pos h.1, RawOperand.listOfTokens?_tokens h.2]
  rfl

/-- Operands with a comma and a space between them spell their tokens with a
comma between them. -/
theorem spells_operands {indexed : Bool} {raws : List RawOperand}
    (h : ∀ raw ∈ raws, raw.isWritable indexed = true) :
    Token.Spells (· = ' ') (List.intercalate [',', ' '] (raws.map fun raw => raw.text.toList))
      (List.intercalate [.comma] (raws.map RawOperand.tokens)) := by
  induction raws with
  | nil => exact .nil
  | cons raw rest ih =>
      rw [List.forall_mem_cons] at h
      have hraw : Token.Spells (· = ' ') raw.text.toList raw.tokens := raw.spells_text h.1
      cases rest with
      | nil => simpa using hraw
      | cons next rest =>
          simp only [List.map_cons, List.intercalate_cons_cons, List.append_assoc] at ih ⊢
          exact hraw.append rfl (.mark rfl (.gap rfl (ih h.2)))

theorem spells_render {indexed : Bool} {s : Statement} (h : s.isWritable indexed = true) :
    Token.Spells (· = ' ') s.render.toList s.tokens := by
  rw [isWritable, Bool.and_eq_true, List.all_eq_true] at h
  have hmnemonic := Token.isWord_of_isIdentifier h.1
  have hoperands := spells_operands h.2
  unfold render
  split
  next hempty =>
    rw [List.isEmpty_iff] at hempty
    simpa [tokens, hempty] using Token.Spells.single hmnemonic
  next =>
    have hspace : Token.Spells (· = ' ')
        (s.mnemonic.toList ++ ' ' :: List.intercalate [',', ' ']
          (s.operands.map fun raw => raw.text.toList)) s.tokens :=
      .word hmnemonic rfl (.gap rfl hoperands)
    simpa [String.toList_intercalate, Function.comp_def] using hspace

end Statement

/-! ## Lines -/

namespace Line

/-- Whether a line can be written. -/
def isWritable (indexed : Bool) (line : Line) : Bool :=
  line.label.all isIdentifier && line.statement.all (Statement.isWritable indexed)

/-- The tokens of a line. -/
def tokens (line : Line) : List Token :=
  (line.label.elim [] fun name => [.word name, .colon]) ++ line.statement.elim [] Statement.tokens

theorem splitLabel_tokens {indexed : Bool} {line : Line} (h : line.isWritable indexed = true) :
    splitLabel line.tokens = (line.label, line.statement.elim [] Statement.tokens) := by
  obtain ⟨_ | name, statement⟩ := line
  · cases statement with
    | none => rfl
    | some s =>
        unfold splitLabel
        split
        next hcolon =>
          simp only [tokens, Statement.tokens, Option.elim, List.nil_append,
            List.cons.injEq] at hcolon
          exact absurd hcolon.2 (RawOperand.intercalate_tokens_ne_colon _ _)
        next => rfl
  · simp only [isWritable, Option.all_some, Bool.and_eq_true] at h
    simp [tokens, splitLabel, h.1]

theorem ofTokens?_tokens {indexed : Bool} {line : Line} (h : line.isWritable indexed = true) :
    ofTokens? indexed line.tokens = some line := by
  rw [ofTokens?, splitLabel_tokens h]
  obtain ⟨label, _ | s⟩ := line
  · rfl
  · simp only [isWritable, Option.all_some, Bool.and_eq_true] at h
    simp [Statement.ofTokens?_tokens h.2]

theorem spells_render {indexed : Bool} {line : Line} (h : line.isWritable indexed = true) :
    Token.Spells (· = ' ') line.render.toList line.tokens := by
  obtain ⟨_ | name, _ | s⟩ := line <;>
    simp only [isWritable, Option.all_some, Option.all_none, Bool.and_eq_true, Bool.true_and] at h
  · exact .nil
  · exact Statement.spells_render h
  · have hlabel : Token.Spells (· = ' ') (name.toList ++ [':']) [.word name, .colon] :=
      .word (Token.isWord_of_isIdentifier h.1) rfl (.mark rfl .nil)
    simpa [render, tokens] using hlabel
  · have hlabel : Token.Spells (· = ' ') (name.toList ++ ':' :: ' ' :: s.render.toList)
        (.word name :: .colon :: s.tokens) :=
      .word (Token.isWord_of_isIdentifier h.1) rfl
        (.mark rfl (.gap rfl (Statement.spells_render h.2)))
    simpa [render, tokens] using hlabel

/-- A line that can be written reads back. -/
theorem parse?_render {isa : InstructionSet}
    (hcomment : InstructionSet.isCommentMarker isa.comment = true) {line : Line}
    (h : line.isWritable isa.indexed = true) : parse? isa line.render.toList = some line := by
  have htokens := (spells_render h).tokenize?_eq hcomment (by intro c hc; rw [hc]; decide)
  rw [parse?, htokens, Option.bind_some, ofTokens?_tokens h]

/-- Spaces are the only blanks in a written line. -/
theorem not_mem_render {indexed : Bool} {line : Line} (h : line.isWritable indexed = true)
    {c : Char} (hblank : Text.isBlank c = true) (hspace : c ≠ ' ') : c ∉ line.render.toList := by
  intro hmem
  have hstart := Token.isWordStart_eq_false_of_isBlank hblank
  have hmark : Token.ofMark? c = none := Token.ofMark?_eq_none (by decide) hblank
  exact hspace ((spells_render h).isGap_of_mem hmem hstart hmark)

end Line

end Asm32
