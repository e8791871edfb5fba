import Asm32.Command.Arguments
import Asm32.Files
import Asm32.InstructionSet.Builtin
import Asm32.InstructionSet.Description

/-!
# Where a program takes its instruction set from

Both programs use a built-in instruction set, or read a description from a file
if they are given one.
-/

namespace Asm32

/-- A built-in instruction set, or the file that is read instead. -/
structure SetSource where
  variant : InstructionSet.Variant
  file : Option String
deriving DecidableEq, Repr

/-- Why a file gives no instruction set. -/
inductive LoadError where
  | unreadable (cause : FileError)
  | rejected (cause : DescriptionError)
deriving DecidableEq, Repr

namespace LoadError

/-- The message for a file that gives no instruction set. -/
def message : LoadError → String
  | .unreadable cause => "failed to read instruction set: " ++ cause.message
  | .rejected cause => cause.message

/-- The failure behind this one. -/
def cause? : LoadError → Option String
  | .unreadable cause => some cause.message
  | .rejected _ => none

end LoadError

namespace SetSource

/-- The options that choose an instruction set. -/
def specs : List OptionSpec :=
  [⟨"isa", some fun value => (InstructionSet.Variant.ofText? value).isSome⟩,
   .path "isa-file"]

/-- The instruction set that the options choose. -/
def ofArguments (a : Arguments) : SetSource where
  variant := ((a.value? "isa").bind InstructionSet.Variant.ofText?).getD .basic
  file := a.value? "isa-file"

/-- Load an instruction set. -/
def load {m : Type → Type} [Monad m] (fs : FileAccess m) (source : SetSource) :
    m (Except LoadError InstructionSet) :=
  match source.file with
  | none => pure (.ok (.ofVariant source.variant))
  | some path => do
      match ← fs.read path with
      | .error e => return .error (.unreadable e)
      | .ok text => return (InstructionSet.ofDescription text).mapError .rejected

end SetSource

end Asm32
