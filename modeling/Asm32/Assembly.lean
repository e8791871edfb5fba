import Asm32.Assembly.Labels
import Asm32.Image
import Asm32.Text.Lines

/-!
# Assembling a program

One scan over the source lines defines labels, encodes instructions and records
the references to labels; then the references are patched, and the words are
put into memory.  The first failure ends the run.  `assembleLogged` is the run
with its log; `assemble` is its result and `assemblyEvents` its log.
-/

namespace Asm32

/-- What a scan has found so far. -/
structure Scan where
  labels : LabelTable
  /-- The references to labels, in the order of their words. -/
  pending : List Reference
  words : List Word
deriving DecidableEq, Repr

namespace Scan

/-- Before the first line. -/
def start : Scan := ⟨.empty, [], []⟩

/-- Define the label of a line at the address of the next word. -/
def defineLabel (s : Scan) (number : Nat) : Option String → Logged Scan
  | none => pure s
  | some name => do
      let labels ← Logged.ofExcept (s.labels.define name s.words.length number)
      Logged.emit (.labelDefined name s.words.length number)
      return { s with labels }

/-- Encode the statement of a line as the next word. -/
def addStatement (isa : InstructionSet) (s : Scan) (number : Nat) :
    Option Statement → Logged Scan
  | none => pure s
  | some statement => do
      let encoded ← Logged.ofExcept <|
        (isa.encode statement.mnemonic statement.operands s.words.length).mapError
          (.encode number)
      Logged.emit (.encoded number s.words.length encoded.word statement.mnemonic)
      return { s with
        words := s.words ++ [encoded.word]
        pending := s.pending ++ encoded.pending.toList }

/-- Read one line: its label first, then its statement. -/
def line (isa : InstructionSet) (s : Scan) (number : Nat) (text : List Char) : Logged Scan := do
  let parsed ← Logged.ofExcept (Line.parse isa number text)
  let s ← s.defineLabel number parsed.label
  s.addStatement isa number parsed.statement

/-- Read lines in order; `number` is that of the first. -/
def lines (isa : InstructionSet) (s : Scan) (number : Nat) : List (List Char) → Logged Scan
  | [] => pure s
  | text :: rest => do
      let s ← s.line isa number text
      s.lines isa (number + 1) rest

end Scan

/-- Assemble a source text and log the steps. -/
def assembleLogged (isa : InstructionSet) (source : String) : Logged Image := do
  let s ← Scan.start.lines isa 1 (Text.lines source.toList)
  let words ← (fixup isa.layout.disp s.labels s.words s.pending).logged
  Logged.emit (.assembled isa.name words.length s.labels.size s.pending.length)
  Logged.ofExcept (Image.ofWords words isa.memoryWords)

/-- Assemble a source text. -/
def assemble (isa : InstructionSet) (source : String) : Except AssemblyError Image :=
  (assembleLogged isa source).result

/-- The steps of assembling a source text. -/
def assemblyEvents (isa : InstructionSet) (source : String) : List Event :=
  (assembleLogged isa source).events

end Asm32
