import Asm32.Image
import Asm32.Text.Blank
import Asm32.Text.Lines

/-!
# Images as hex text

An image is written one word a line, eight hex digits each, zeros behind the
program included.  `parseHexImage` reads such a text back; it skips blank
lines and takes any number of digits as long as the value fits a word.
-/

namespace Asm32

/-- A line of a hex text that is no word. -/
structure HexImageError where
  /-- The number of the line, counted from one. -/
  line : Nat
  /-- The line without the blanks around it. -/
  text : String
deriving DecidableEq, Repr

/-- The message for a line that is no word. -/
def HexImageError.message (e : HexImageError) : String :=
  "line " ++ Text.decimal e.line ++ ": `" ++ e.text ++ "` is not a hex word"

/-- A word as a line of hex text. -/
def hexLine (word : Word) : String :=
  Text.hexPadded 8 word.toNat ++ "\n"

/-- The number of characters in a line of hex text. -/
def hexLineLength : Nat := 9

/-- Words as hex text. -/
def hexText (words : List Word) : String :=
  String.join (words.map hexLine)

/-- An image as hex text. -/
def Image.hex (image : Image) : String :=
  hexText image.padded

/-- A place to write text to that has room for `room` characters and may fail
when it is told to make the text last. -/
structure Sink where
  room : Nat
  flushFails : Bool

/-- Why a sink did not take a text. -/
inductive SinkError where
  | full
  | notFlushed
deriving DecidableEq, Repr

/-- Write the hex text of an image to a sink.  The first part is the text that
the sink took: no more than it has room for, and no more lines are made than
that needs. -/
def Image.writeHex (image : Image) (sink : Sink) : String × Except SinkError Unit :=
  let text := hexText (image.leading (sink.room / hexLineLength + 1))
  if hexLineLength * image.capacity.toNat ≤ sink.room then
    (text, if sink.flushFails then .error .notFlushed else .ok ())
  else
    (String.ofList (text.toList.take sink.room), .error .full)

/-- Read a word from a line without blanks around it.  A plus sign, which may
stand in front of other numbers, is refused. -/
def parseHexWord? (text : List Char) : Option Word :=
  match Text.hexWord? text with
  | some word => if text.head? = some '+' then none else some word
  | none => none

/-- Read lines of hex text; `number` is that of the first line. -/
def parseHexLines (number : Nat) : List (List Char) → Except HexImageError (List Word)
  | [] => .ok []
  | line :: rest =>
      if (Text.trim line).isEmpty then
        parseHexLines (number + 1) rest
      else
        match parseHexWord? (Text.trim line) with
        | none => .error ⟨number, String.ofList (Text.trim line)⟩
        | some word =>
            match parseHexLines (number + 1) rest with
            | .error e => .error e
            | .ok words => .ok (word :: words)

/-- Read a hex text. -/
def parseHexImage (text : String) : Except HexImageError (List Word) :=
  parseHexLines 1 (Text.lines text.toList)

end Asm32
