import Asm32.Instruction.Decoding

/-!
# Listings

A listing shows each word of an image with its address and its instruction.  An
address that some branch goes to has a label, `loc_` and the address in hex,
and the branch is annotated with the label of its target.
-/

namespace Asm32

/-- One word of a listing. -/
structure Row where
  address : Nat
  word : Word
  /-- The label of the address, if a branch goes there. -/
  label : Option String
  text : String
  /-- The address that a branch goes to. -/
  target : Option Int64
deriving DecidableEq, Repr

/-- The label of an address.  A negative address is shown as its 64 bits. -/
def locationLabel (address : Int64) : String :=
  "loc_" ++ Text.hexPadded 4 address.toBitVec.toNat

/-- The address that the word at a given address branches to. -/
def InstructionSet.targetOf? (isa : InstructionSet) (address : Nat) (word : Word) : Option Int64 :=
  (isa.decode? word).bind fun d => d.branchTarget? address

/-- The branch targets of words that start at a given address. -/
def InstructionSet.targetsFrom (isa : InstructionSet) (address : Nat) (words : List Word) :
    List Int64 :=
  (words.zipIdx address).filterMap fun entry => isa.targetOf? entry.2 entry.1

/-- Whether an address is one of the first `length`. -/
def isListed (length : Nat) (address : Int64) : Bool :=
  0 ≤ address.toInt && address.toInt < length

/-- The addresses that have a label: the branch targets inside the listing. -/
def InstructionSet.labelled (isa : InstructionSet) (words : List Word) : List Int64 :=
  (isa.targetsFrom 0 words).filter (isListed words.length)

/-- The instruction of a word, or the word as data. -/
def InstructionSet.wordText (isa : InstructionSet) (word : Word) : String :=
  match isa.decode? word with
  | some d => d.text
  | none => ".word 0x" ++ Text.hexPadded 8 word.toNat

/-- The row of a word, given the addresses that have a label. -/
def InstructionSet.row (isa : InstructionSet) (labelled : List Int64) (address : Nat)
    (word : Word) : Row where
  address := address
  word := word
  label :=
    if labelled.contains (Int64.ofNat address) then some (locationLabel (Int64.ofNat address))
    else none
  text := isa.wordText word
  target := isa.targetOf? address word

/-- The listing of an image. -/
def InstructionSet.listing (isa : InstructionSet) (words : List Word) : List Row :=
  let labelled := isa.labelled words
  (words.zipIdx 0).map fun entry => isa.row labelled entry.2 entry.1

namespace Row

/-- The label of a row on a line of its own. -/
def labelLine (r : Row) : String :=
  match r.label with
  | some label => label ++ ":\n"
  | none => ""

/-- The annotation of a branch. -/
def annotation (r : Row) : String :=
  match r.target with
  | some target => "  ; -> " ++ locationLabel target
  | none => ""

/-- A row as text. -/
def render (r : Row) : String :=
  r.labelLine ++ "  " ++ Text.hexPadded 4 r.address ++ ": " ++ Text.hexPadded 8 r.word.toNat ++
    "  " ++ r.text ++ r.annotation ++ "\n"

end Row

/-- A listing as text. -/
def renderListing (rows : List Row) : String :=
  String.join (rows.map Row.render)

end Asm32
