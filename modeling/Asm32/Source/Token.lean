import Asm32.Text.Blank

/-!
# Tokens of a source line

A line is words and the four punctuation marks `:` `,` `(` `)`.  A word is a
run of letters, digits and underscores, and may start with one sign.  Blanks
separate words, and the comment marker ends the line wherever a token could
start.  Any other character, and a sign with nothing behind it, makes the line
unreadable.
-/

namespace Asm32

/-- A token of a source line. -/
inductive Token where
  | word (text : String)
  | colon
  | comma
  | lparen
  | rparen
deriving DecidableEq, Repr

/-- Whether a character can stand inside a word. -/
def isWordChar (c : Char) : Bool :=
  c.isAlphanum || c == '_'

/-- Whether a character can start a word without being part of a name. -/
def isSign (c : Char) : Bool :=
  c == '-' || c == '+'

/-- Whether a text is a name: one or more word characters. -/
def isIdentifier (text : String) : Bool :=
  !text.toList.isEmpty && text.toList.all isWordChar

namespace Token

/-- The token a punctuation mark stands for. -/
def ofMark? : Char → Option Token
  | ':' => some .colon
  | ',' => some .comma
  | '(' => some .lparen
  | ')' => some .rparen
  | _ => none

/-- The text of a token. -/
def spelling : Token → String
  | .word text => text
  | .colon => ":"
  | .comma => ","
  | .lparen => "("
  | .rparen => ")"

/-- Put the word that ends here in front of the tokens behind it.  The word is
given last character first and is empty if none is open; a sign alone is no
word. -/
def closeWord (openWord : List Char) (behind : List Token) : Option (List Token) :=
  match openWord with
  | [] => some behind
  | [c] => if isSign c then none else some (.word (String.ofList [c]) :: behind)
  | chars => some (.word (String.ofList chars.reverse) :: behind)

/-- The tokens of a line, given the word that is open at its start, last
character first.  A word goes on as long as word characters follow, so the
comment marker is looked for only where no word is open. -/
def scan (comment : Char) : List Char → List Char → Option (List Token)
  | openWord, [] => closeWord openWord []
  | openWord, c :: rest =>
      if !openWord.isEmpty && isWordChar c then
        scan comment (c :: openWord) rest
      else if c = comment then
        closeWord openWord []
      else
        match ofMark? c with
        | some mark =>
            (scan comment [] rest).bind fun behind => closeWord openWord (mark :: behind)
        | none =>
            if Text.isBlank c then
              (scan comment [] rest).bind fun behind => closeWord openWord behind
            else if isWordChar c || isSign c then
              (scan comment [c] rest).bind fun behind => closeWord openWord behind
            else
              none

/-- The tokens of a line, or nothing if a character has no place in it. -/
def tokenize? (comment : Char) (line : List Char) : Option (List Token) :=
  scan comment [] line

end Token

end Asm32
