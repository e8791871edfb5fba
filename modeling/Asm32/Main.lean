import Asm32.Command.Assembler
import Asm32.Command.Disassembler

/-!
# The command line

Runs one of the two programs on real files.  The first argument names the
program; the rest are its arguments.
-/

namespace Asm32

/-- How to use a program. -/
def Program.usage : Program → String
  | .assembler =>
      "Usage: tiny32-asm [OPTIONS] <SOURCE> <IMAGE>\n\n" ++
      "Options:\n" ++
      "      --isa <ISA>          built-in instruction set: basic, extended\n" ++
      "      --isa-file <FILE>    instruction set description to use instead\n" ++
      "      --capacity <WORDS>   memory size in words\n" ++
      "  -h, --help               print this text\n" ++
      "  -V, --version            print the version\n"
  | .disassembler =>
      "Usage: tiny32-disasm [OPTIONS] <IMAGE>\n\n" ++
      "Options:\n" ++
      "      --isa <ISA>          built-in instruction set: basic, extended\n" ++
      "      --isa-file <FILE>    instruction set description to use instead\n" ++
      "      --all                list the zeros at the end too\n" ++
      "      --format <FORMAT>    form of the listing: text, json\n" ++
      "      --out <FILE>         file to write the listing to\n" ++
      "  -h, --help               print this text\n" ++
      "  -V, --version            print the version\n"

/-- The text of an output. -/
def Output.render (program : Program) : Output → String
  | .text content => content
  | .usage => program.usage
  | .breakdown cause => program.name ++ " broke off: " ++ cause ++ "\n"

/-- The cause of a failed file operation. -/
def FileError.ofSystem : IO.Error → FileError
  | .noFileOrDirectory _ _ _ => .notFound
  | .inappropriateType _ 20 _ => .notDirectory
  | .inappropriateType _ 21 _ => .isDirectory
  | .invalidArgument _ 36 _ => .nameTooLong
  | e => .other (toString e)

/-- Reading and writing real files. -/
def systemFiles : FileAccess IO where
  read path := do
    try
      let bytes ← IO.FS.withFile path .read fun handle => handle.readBinToEnd
      match String.fromUTF8? bytes with
      | some text => return .ok text
      | none => return .error .notText
    catch e => return .error (.ofSystem e)
  write path content := do
    try
      IO.FS.writeFile path content
      return .ok ()
    catch e => return .error (.ofSystem e)

/-- Run a program on real files. -/
def Program.run (program : Program) (args : List String) : IO Report :=
  match program with
  | .assembler => Assembler.run systemFiles args
  | .disassembler => Disassembler.run systemFiles args

end Asm32

open Asm32 in
/-- Run the program that the first argument names. -/
def main (args : List String) : IO UInt32 := do
  match args with
  | [] =>
      IO.eprintln "name a program: tiny32-asm or tiny32-disasm"
      return 1
  | name :: rest =>
      match Program.ofName? name with
      | none =>
          IO.eprintln "name a program: tiny32-asm or tiny32-disasm"
          return 1
      | some program =>
          let report ← program.run rest
          IO.print (report.out.render program)
          IO.eprint (report.err.render program)
          return report.exit.toUInt32
