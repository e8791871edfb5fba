import Asm32.Command.Report
import Asm32.Command.SetSource
import Asm32.Image.Hex
import Asm32.Listing.Record

/-!
# The disassembler program

Reads an image as hex text and prints its listing, as text or as JSON.  The
zeros at the end of the image are left out unless they are asked for.
-/

namespace Asm32.Disassembler

/-- The forms of a listing. -/
inductive Style where
  | text
  | json
deriving DecidableEq, Repr

/-- The form with a given name. -/
def Style.ofText? : String → Option Style
  | "text" => some .text
  | "json" => some .json
  | _ => none

/-- What the disassembler is asked to do. -/
structure Options where
  /-- The path of the image. -/
  image : String
  isa : SetSource
  /-- Whether to list the zeros at the end. -/
  all : Bool
  style : Style
  /-- The path of the listing, if it goes to a file. -/
  out : Option String
deriving DecidableEq, Repr

/-- Read the arguments of the disassembler. -/
def parseOptions (args : List String) : Request Options :=
  match Arguments.parse
      (SetSource.specs ++
        [⟨"all", none⟩, ⟨"format", some fun value => (Style.ofText? value).isSome⟩, .path "out"])
      1 args with
  | .help => .help
  | .version => .version
  | .invalid => .invalid
  | .run a =>
      match a.positionals with
      | [image] =>
          .run
            { image
              isa := .ofArguments a
              all := a.has "all"
              style := ((a.value? "format").bind Style.ofText?).getD .text
              out := a.value? "out" }
      | _ => .invalid

/-- Why the disassembler fails. -/
inductive Failure where
  | load (cause : LoadError)
  | read (path : String) (cause : FileError)
  | image (cause : HexImageError)
  | write (cause : FileError)
deriving DecidableEq, Repr

namespace Failure

/-- The message for a failure. -/
def message : Failure → String
  | .load cause => cause.message
  | .read path _ => "reading " ++ path
  | .image cause => cause.message
  | .write cause => cause.message

/-- The failure behind a failure. -/
def cause? : Failure → Option String
  | .load cause => cause.cause?
  | .read _ cause => some cause.message
  | _ => none

/-- What the disassembler prints when it fails: the message, and the failure
behind it in a paragraph of its own. -/
def text (f : Failure) : String :=
  "Error: " ++ f.message ++ "\n" ++
    f.cause?.elim "" fun cause => "\nCaused by:\n    " ++ cause ++ "\n"

/-- How the disassembler ends when it fails.  It breaks off where the check of its
instruction set does. -/
def report : Failure → Report
  | .load (.rejected (.checkFailed cause@(.overflow _))) => .broken cause.message
  | failure => .failure failure.text

end Failure

/-- The words of an image that are listed. -/
def Options.listed (options : Options) (words : List Word) : List Word :=
  if options.all then words else usedWords words

/-- A listing in the form asked for. -/
def Style.render : Style → List Row → String
  | .text, rows => renderListing rows
  | .json, rows => listingJson rows

variable {m : Type → Type} [Monad m]

/-- Read an image. -/
def loadImage (fs : FileAccess m) (path : String) : m (Except Failure (List Word)) := do
  match ← fs.read path with
  | .error e => return .error (.read path e)
  | .ok text => return (parseHexImage text).mapError .image

/-- The listing of the image, in the form asked for. -/
def render (fs : FileAccess m) (options : Options) : m (Except Failure String) := do
  match ← options.isa.load fs with
  | .error e => return .error (.load e)
  | .ok isa =>
      match ← loadImage fs options.image with
      | .error failure => return .error failure
      | .ok words => return .ok (options.style.render (isa.listing (options.listed words)))

/-- Run the disassembler on parsed options. -/
def runOptions (fs : FileAccess m) (options : Options) : m Report := do
  match ← render fs options with
  | .error failure => return failure.report
  | .ok text =>
      match options.out with
      | none => return .success text
      | some path =>
          match ← fs.write path text with
          | .ok () => return .success ""
          | .error e => return (Failure.write e).report

/-- Run the disassembler. -/
def run (fs : FileAccess m) (args : List String) : m Report :=
  match parseOptions args with
  | .help => pure .help
  | .version => pure (.success Program.disassembler.versionLine)
  | .invalid => pure (.misuse 2)
  | .run options => runOptions fs options

end Asm32.Disassembler
