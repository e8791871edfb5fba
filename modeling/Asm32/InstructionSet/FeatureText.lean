import Asm32.InstructionSet
import Asm32.Text.Blank
import Asm32.Text.Cut
import Asm32.Text.Numeral

/-!
# Features as text

The features of an instruction set are written as names and numbers between
bars: the name of each known feature, and the other bits as one hex number.
Reading takes the parts in any order, with blanks around them.
-/

namespace Asm32.Features

/-- The name of indexed addressing. -/
def indexedName : String := "INDEXED_ADDRESSING"

/-- The bits that have no name. -/
def unnamed (features : Features) : BitVec 32 :=
  features.bits &&& ~~~indexedAddressing.bits

/-- Features as text. -/
def text (features : Features) : String :=
  let names := if features.indexed then [indexedName] else []
  let rest := if features.unnamed = 0 then [] else ["0x" ++ Text.hex features.unnamed.toNat]
  String.intercalate " | " (names ++ rest)

/-- One part of a feature text: a hex number or a name. -/
def parsePart? (part : List Char) : Option Features :=
  match Text.trim part with
  | '0' :: 'x' :: digits => (Text.hexWord? digits).map fun bits => ⟨bits⟩
  | name => if name = indexedName.toList then some indexedAddressing else none

/-- Read features from text. -/
def parse? (text : List Char) : Option Features :=
  if (Text.trim text).isEmpty then
    some empty
  else
    ((Text.cutAt (· == '|') text).mapM parsePart?).map fun parts => parts.foldl union empty

end Asm32.Features
