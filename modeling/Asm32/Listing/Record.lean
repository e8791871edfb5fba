import Asm32.Instruction.Record
import Asm32.Listing

/-!
# Listings as JSON

One object per row, spread over several lines.
-/

namespace Asm32

/-- A row as JSON. -/
def Row.toJson (r : Row) : Json :=
  .record
    [("address", .ofNat r.address), ("word", .ofNat r.word.toNat),
     ("label", .ofOption .ofString r.label), ("text", .ofString r.text),
     ("target", .ofOption .ofInt64 r.target)]

/-- A listing as JSON text, ending in a line break. -/
def listingJson (rows : List Row) : String :=
  (Json.arr (rows.map Row.toJson)).pretty ++ "\n"

end Asm32
