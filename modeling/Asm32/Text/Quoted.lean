import Asm32.Text.Combining
import Asm32.Text.Unprintable
import Asm32.Text.Numeral

/-!
# Quoted characters

How a message shows a single character: between single quotes, with an escape
for each character that would not show or would close the quotes.
-/

namespace Asm32.Text

/-- A character as it stands between single quotes.  A few characters have an
escape of their own; one without a glyph, or one that attaches to the character
before it, is given by its code point. -/
def escapedChar (c : Char) : String :=
  match c with
  | '\x00' => "\\0"
  | '\t' => "\\t"
  | '\n' => "\\n"
  | '\r' => "\\r"
  | '\x27' => "\\'"
  | '\\' => "\\\\"
  | c =>
      if isCombining c || isUnprintable c then
        "\\u\x7b" ++ hex c.toNat ++ "\x7d"
      else
        c.toString

/-- A character between single quotes. -/
def quotedChar (c : Char) : String :=
  "'" ++ escapedChar c ++ "'"

end Asm32.Text
