import Asm32.Assembly
import Asm32.Command.Report
import Asm32.Command.SetSource
import Asm32.Image.Hex

/-!
# The assembler program

Reads a source file and writes its image as hex text.  Nothing is written
unless the whole source assembles.
-/

namespace Asm32.Assembler

/-- What the assembler is asked to do. -/
structure Options where
  /-- The path of the source. -/
  source : String
  /-- The path of the image. -/
  image : String
  isa : SetSource
  /-- The memory size, if it is not that of the instruction set. -/
  capacity : Option UInt64
deriving DecidableEq, Repr

/-- Read the arguments of the assembler. -/
def parseOptions (args : List String) : Request Options :=
  match Arguments.parse
      (SetSource.specs ++ [⟨"capacity", some fun value => (parseCapacity? value).isSome⟩]) 2
      args with
  | .help => .help
  | .version => .version
  | .invalid => .invalid
  | .run a =>
      match a.positionals with
      | [source, image] =>
          .run
            { source
              image
              isa := .ofArguments a
              capacity := (a.value? "capacity").bind parseCapacity? }
      | _ => .invalid

/-- Why the assembler fails. -/
inductive Failure where
  /-- The file of the instruction set is of no use. -/
  | load (path : String) (cause : LoadError)
  /-- The instruction set does not pass the check with the memory size asked for. -/
  | checkFailed (cause : CheckFailure)
  | read (path : String) (cause : FileError)
  | assembly (cause : AssemblyError)
  | write (path : String) (cause : FileError)
deriving DecidableEq, Repr

/-- The line that the assembler prints when it fails: the message and the
failures behind it. -/
def Failure.line : Failure → String
  | .load path cause =>
      "error: loading instruction set " ++ path ++ ": " ++ cause.message ++
        (cause.cause?.elim "" fun text => ": " ++ text) ++ "\n"
  | .checkFailed cause => "error: " ++ cause.message ++ "\n"
  | .read path cause => "error: reading " ++ path ++ ": " ++ cause.message ++ "\n"
  | .assembly cause => "Parse error: " ++ cause.message ++ "\n"
  | .write path cause => "error: writing " ++ path ++ ": " ++ cause.message ++ "\n"

/-- How the assembler ends when it fails.  It breaks off where the check of its
instruction set does. -/
def Failure.report : Failure → Report
  | .load _ (.rejected (.checkFailed cause@(.overflow _))) => .broken cause.message
  | .checkFailed cause@(.overflow _) => .broken cause.message
  | failure => .failure failure.line

/-- The instruction set with the memory size asked for. -/
def Options.resize (options : Options) (isa : InstructionSet) : InstructionSet :=
  match options.capacity with
  | some capacity => isa.withCapacity capacity
  | none => isa

variable {m : Type → Type} [Monad m]

/-- Load the instruction set with the memory size asked for. -/
def loadSet (fs : FileAccess m) (options : Options) : m (Except Failure InstructionSet) := do
  match ← options.isa.load fs with
  | .error e => return .error (.load (options.isa.file.getD "") e)
  | .ok isa =>
      match (options.resize isa).validate with
      | .error e => return .error (.checkFailed e)
      | .ok () => return .ok (options.resize isa)

/-- Assemble the source file. -/
def build (fs : FileAccess m) (options : Options) : m (Except Failure Image) := do
  match ← loadSet fs options with
  | .error failure => return .error failure
  | .ok isa =>
      match ← fs.read options.source with
      | .error e => return .error (.read options.source e)
      | .ok source => return (assemble isa source).mapError .assembly

/-- Assemble the source file and write the image. -/
def execute (fs : FileAccess m) (options : Options) : m (Except Failure Unit) := do
  match ← build fs options with
  | .error failure => return .error failure
  | .ok image => return (← fs.write options.image image.hex).mapError (.write options.image)

/-- Run the assembler on parsed options. -/
def runOptions (fs : FileAccess m) (options : Options) : m Report := do
  match ← execute fs options with
  | .ok () => return .success ""
  | .error failure => return failure.report

/-- Run the assembler. -/
def run (fs : FileAccess m) (args : List String) : m Report :=
  match parseOptions args with
  | .help => pure .help
  | .version => pure (.success Program.assembler.versionLine)
  | .invalid => pure (.misuse 1)
  | .run options => runOptions fs options

end Asm32.Assembler
