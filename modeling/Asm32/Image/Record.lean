import Asm32.Image
import Asm32.Json.Reader
import Asm32.Json.Shape
import Asm32.Json.Writer

/-!
# Images as JSON

`Image.toJson` writes the words of an image and its capacity, without the zeros
behind the program.  `Image.parseJson` reads such a record and refuses one with
more words than its capacity.
-/

namespace Asm32

/-- Why a JSON text gives no image. -/
inductive ImageRecordError where
  /-- The text is not JSON of the right shape. -/
  | malformed
  /-- The words do not fit the capacity. -/
  | rejected (cause : AssemblyError)
deriving DecidableEq, Repr

namespace Image

/-- An image as JSON. -/
def toJson (image : Image) : Json :=
  .record
    [("words", .arr (image.words.map fun word => .ofNat word.toNat)),
     ("capacity", .ofNat image.capacity.toNat)]

/-- The words and the capacity that a record gives. -/
def recordOfJson? (json : Json) : Option (List Word × UInt64) :=
  match json.fields? ["words", "capacity"] with
  | some [some words, some capacity] =>
      (words.list? Json.word?).bind fun words => capacity.uint64?.map fun capacity =>
        (words, capacity)
  | _ => none

/-- Read an image from JSON text.  The words are held against the capacity
before the text behind the record is looked at. -/
def parseJson (text : String) : Except ImageRecordError Image :=
  match Json.value? text.toList with
  | none => .error .malformed
  | some (json, behind) =>
      match recordOfJson? json with
      | none => .error .malformed
      | some (words, capacity) =>
          match ofWords words capacity with
          | .error cause => .error (.rejected cause)
          | .ok image => if Json.atEnd behind then .ok image else .error .malformed

end Image

end Asm32
