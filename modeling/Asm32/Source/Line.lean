import Asm32.InstructionSet
import Asm32.Source.Token
import Asm32.Text.Cut

/-!
# Source lines

A line holds an optional label, `name:`, and an optional statement, a mnemonic
with operands between commas.  Where the instruction set has indexed
addressing, an operand may be a base register in parentheses behind an optional
offset.  `Line.parse?` reads a line and `Line.render` writes one.
-/

namespace Asm32

/-- An operand as it stands in the source. -/
inductive RawOperand where
  /-- A single word. -/
  | plain (word : String)
  /-- A base register in parentheses, behind an optional offset. -/
  | indexed (offset : Option String) (base : String)
deriving DecidableEq, Repr

/-- The text of an operand. -/
def RawOperand.text : RawOperand → String
  | .plain word => word
  | .indexed offset base => offset.getD "" ++ "(" ++ base ++ ")"

/-- An instruction as it stands in the source. -/
structure Statement where
  mnemonic : String
  operands : List RawOperand
deriving DecidableEq, Repr

/-- A statement in source syntax: the mnemonic, and behind a space the operands
with a comma and a space between them. -/
def Statement.render (s : Statement) : String :=
  if s.operands.isEmpty then
    s.mnemonic
  else
    s.mnemonic ++ " " ++ String.intercalate ", " (s.operands.map RawOperand.text)

/-- What a source line holds. -/
structure Line where
  label : Option String
  statement : Option Statement
deriving DecidableEq, Repr

/-- Read the operand that the tokens between two commas make up. -/
def RawOperand.ofTokens? (indexed : Bool) : List Token → Option RawOperand
  | [.word word] => some (.plain word)
  | [.lparen, .word base, .rparen] => if indexed then some (.indexed none base) else none
  | [.word offset, .lparen, .word base, .rparen] =>
      if indexed then some (.indexed (some offset) base) else none
  | _ => none

/-- Read the operands behind a mnemonic. -/
def RawOperand.listOfTokens? (indexed : Bool) : List Token → Option (List RawOperand)
  | [] => some []
  | tokens => (Text.cutAt (· == .comma) tokens).mapM (RawOperand.ofTokens? indexed)

/-- Read a statement, or the absence of one. -/
def Statement.ofTokens? (indexed : Bool) : List Token → Option (Option Statement)
  | [] => some none
  | .word mnemonic :: rest =>
      if isIdentifier mnemonic then
        (RawOperand.listOfTokens? indexed rest).map fun operands => some ⟨mnemonic, operands⟩
      else
        none
  | _ => none

namespace Line

/-- Cut a label off the front of a line. -/
def splitLabel : List Token → Option String × List Token
  | .word name :: .colon :: rest =>
      if isIdentifier name then (some name, rest) else (none, .word name :: .colon :: rest)
  | tokens => (none, tokens)

/-- Read the tokens of a line. -/
def ofTokens? (indexed : Bool) (tokens : List Token) : Option Line :=
  (Statement.ofTokens? indexed (splitLabel tokens).2).map fun statement =>
    ⟨(splitLabel tokens).1, statement⟩

/-- A line in source syntax. -/
def render : Line → String
  | ⟨none, none⟩ => ""
  | ⟨some label, none⟩ => label ++ ":"
  | ⟨none, some statement⟩ => statement.render
  | ⟨some label, some statement⟩ => label ++ ": " ++ statement.render

/-- Read a source line. -/
def parse? (isa : InstructionSet) (text : List Char) : Option Line :=
  (Token.tokenize? isa.comment text).bind (ofTokens? isa.indexed)

end Line

end Asm32
