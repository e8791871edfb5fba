import Asm32.Text.Cut
import Asm32.Text.Numeral

/-!
# Command lines

Arguments are options and positionals in any order.  An option is written
`--name value` or `--name=value`, a flag `--name`; each may be given once.
Behind `--` every argument is a positional.  Arguments count in order: the
first fault, or the first call for help or for the version, decides.
-/

namespace Asm32

/-- What a command line asks for. -/
inductive Request (α : Type) where
  | help
  | version
  | invalid
  | run (options : α)

/-- An option that a program knows. -/
structure OptionSpec where
  name : String
  /-- The values it takes; a flag takes none. -/
  accepts : Option (String → Bool)

/-- The options and positionals of a command line. -/
structure Arguments where
  /-- Options with their values, flags with an empty one. -/
  options : List (String × String)
  positionals : List String
deriving DecidableEq, Repr

/-- The kinds of argument, told by their first characters. -/
inductive ArgumentKind where
  | positional
  /-- Two dashes alone. -/
  | endOfOptions
  /-- Two dashes, a name, and maybe a value behind an equals sign. -/
  | long (name : String) (value : Option String)
  /-- One dash and a letter. -/
  | short (letter : Char)
deriving DecidableEq, Repr

namespace Arguments

/-- No argument. -/
def empty : Arguments := ⟨[], []⟩

/-- Whether an option or a flag is given. -/
def has (a : Arguments) (name : String) : Bool :=
  a.options.any fun option => option.1 == name

/-- The value of an option. -/
def value? (a : Arguments) (name : String) : Option String :=
  a.options.lookup name

/-- Add an option. -/
def addOption (a : Arguments) (name value : String) : Arguments :=
  { a with options := (name, value) :: a.options }

/-- Add a positional. -/
def addPositional (a : Arguments) (text : String) : Arguments :=
  { a with positionals := a.positionals ++ [text] }

/-- The kind of an argument before the end of options. -/
def kind (arg : String) : ArgumentKind :=
  match arg.toList with
  | ['-', '-'] => .endOfOptions
  | '-' :: '-' :: text =>
      let name := String.ofList (text.takeWhile (· != '='))
      match text.dropWhile (· != '=') with
      | _ :: value => .long name (some (String.ofList value))
      | [] => .long name none
  | '-' :: letter :: _ => .short letter
  | _ => .positional

/-- Read arguments behind those already read. -/
def parseFrom (specs : List OptionSpec) (count : Nat) :
    Bool → Arguments → List String → Request Arguments
  | _, a, [] => if a.positionals.length = count then .run a else .invalid
  | ended, a, arg :: rest =>
      match if ended then .positional else kind arg with
      | .positional =>
          if arg.isEmpty || count ≤ a.positionals.length then .invalid
          else parseFrom specs count ended (a.addPositional arg) rest
      | .endOfOptions => parseFrom specs count true a rest
      | .short 'h' => .help
      | .short 'V' => .version
      | .short _ => .invalid
      | .long "help" none => .help
      | .long "version" none => .version
      | .long name attached =>
          if a.has name then
            .invalid
          else
            match specs.find? fun spec => spec.name == name with
            | none => .invalid
            | some spec =>
                match spec.accepts, attached with
                | none, none => parseFrom specs count ended (a.addOption name "") rest
                | none, some _ => .invalid
                | some accepts, some value =>
                    if accepts value then
                      parseFrom specs count ended (a.addOption name value) rest
                    else
                      .invalid
                | some accepts, none =>
                    match rest with
                    | [] => .invalid
                    | value :: rest =>
                        if kind value = .positional && accepts value then
                          parseFrom specs count ended (a.addOption name value) rest
                        else
                          .invalid

/-- Read a command line with a given number of positionals. -/
def parse (specs : List OptionSpec) (count : Nat) (args : List String) : Request Arguments :=
  parseFrom specs count false empty args

end Arguments

/-- An option whose value is a path; the empty text is none. -/
def OptionSpec.path (name : String) : OptionSpec :=
  ⟨name, some fun value => !value.isEmpty⟩

/-- A number of words: decimal digits behind an optional plus sign, in 64
bits. -/
def parseCapacity? (text : String) : Option UInt64 :=
  let digits :=
    match text.toList with
    | '+' :: rest => rest
    | all => all
  (Text.digitsValue? 10 digits).bind fun n =>
    if n < UInt64.size then some (UInt64.ofNat n) else none

end Asm32
