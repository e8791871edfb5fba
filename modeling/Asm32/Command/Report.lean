/-!
# How a program ends

The two programs end with an exit code, a text for the output stream and one for
the error stream.  A program that breaks off in the middle of an arithmetic
operation leaves the error stream to the system it runs on.
-/

namespace Asm32

/-- The two programs. -/
inductive Program where
  | assembler
  | disassembler
deriving DecidableEq, Repr

namespace Program

/-- The name of a program. -/
def name : Program → String
  | .assembler => "tiny32-asm"
  | .disassembler => "tiny32-disasm"

/-- The program with a given name. -/
def ofName? : String → Option Program
  | "tiny32-asm" => some .assembler
  | "tiny32-disasm" => some .disassembler
  | _ => none

/-- The line that a program prints when asked for its version. -/
def versionLine (program : Program) : String :=
  program.name ++ " 0.1.0\n"

end Program

/-- What goes to a stream: a text, how to use the program, or what the system
says of a program that breaks off. -/
inductive Output where
  | text (content : String)
  | usage
  | breakdown (cause : String)
deriving DecidableEq, Repr

/-- How a program ends. -/
structure Report where
  exit : UInt8
  out : Output
  err : Output
deriving DecidableEq, Repr

namespace Report

/-- Success with some output. -/
def success (out : String) : Report :=
  ⟨0, .text out, .text ""⟩

/-- Failure with a message. -/
def failure (err : String) : Report :=
  ⟨1, .text "", .text err⟩

/-- The answer to a call for help. -/
def help : Report :=
  ⟨0, .usage, .text ""⟩

/-- The answer to arguments that make no sense. -/
def misuse (exit : UInt8) : Report :=
  ⟨exit, .text "", .usage⟩

/-- The end of a program that breaks off. -/
def broken (cause : String) : Report :=
  ⟨101, .text "", .breakdown cause⟩

end Report

end Asm32
