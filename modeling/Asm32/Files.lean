import Asm32.Text.Cut

/-!
# Files

The programs read and write whole files by path.  `FileAccess` is what they
need of a file system, in any monad; `FileTree` is a file system as a value, and
`FileTree.access` the access to it.  The outer layer supplies the access to real
files.

A path is names between slashes.  It starts at the root of the tree if it has a
slash in front, and at the working directory otherwise; two dots lead one
directory up, and from the root to the root.  Every name but the last must be a
directory.  A slash at the end asks for a directory: a file cannot be read by
such a path, and none can be made or overwritten by it.
-/

namespace Asm32

/-- Why a file cannot be read or written. -/
inductive FileError where
  | notFound
  | notDirectory
  | isDirectory
  /-- A name, or the whole path, has more bytes than the system takes. -/
  | nameTooLong
  /-- The bytes of the file are not UTF-8. -/
  | notText
  /-- Any other failure, with the message of the system. -/
  | other (text : String)
deriving DecidableEq, Repr

/-- The message for a file that cannot be read or written. -/
def FileError.message : FileError → String
  | .notFound => "No such file or directory (os error 2)"
  | .notDirectory => "Not a directory (os error 20)"
  | .isDirectory => "Is a directory (os error 21)"
  | .nameTooLong => "File name too long (os error 36)"
  | .notText => "stream did not contain valid UTF-8"
  | .other text => text

/-- Reading and writing whole files. -/
structure FileAccess (m : Type → Type) where
  read : String → m (Except FileError String)
  write : String → String → m (Except FileError Unit)

/-- What a place in a file system can hold. -/
inductive Entry where
  | file (bytes : ByteArray)
  | directory

/-- A file system with a working directory.  A place is given by the names on the
way from the root, which is a directory and has no entry. -/
structure FileTree where
  /-- The files and directories by their places.  The first entry of a place
  counts. -/
  entries : List (List String × Entry)
  /-- The place of the working directory. -/
  workingDirectory : List String

namespace FileTree

/-- What stands at a place. -/
def entry? (tree : FileTree) (place : List String) : Option Entry :=
  tree.entries.lookup place

/-- Put an entry at a place. -/
def put (tree : FileTree) (place : List String) (entry : Entry) : FileTree :=
  { tree with entries := (place, entry) :: tree.entries.filter fun e => e.1 != place }

/-- What a path leads to. -/
inductive Target where
  | directory
  | file (place : List String) (bytes : ByteArray)
  /-- Nothing yet, in a directory that exists. -/
  | missing (place : List String)
  /-- Nothing, and the last name is too long for a file. -/
  | unnameable

/-- The largest number of bytes in a name. -/
def maxNameBytes : Nat := 255

/-- The largest number of bytes in a path. -/
def maxPathBytes : Nat := 4095

/-- Follow names from a directory. -/
def follow (tree : FileTree) : List String → List String → Except FileError Target
  | _, [] => .ok .directory
  | directory, name :: rest =>
      if name = "." then
        follow tree directory rest
      else if name = ".." then
        follow tree directory.dropLast rest
      else if maxNameBytes < name.utf8ByteSize then
        if rest.isEmpty then .ok .unnameable else .error .nameTooLong
      else
        match tree.entry? (directory ++ [name]) with
        | some .directory => follow tree (directory ++ [name]) rest
        | some (.file bytes) =>
            if rest.isEmpty then .ok (.file (directory ++ [name]) bytes)
            else .error .notDirectory
        | none =>
            if rest.isEmpty then .ok (.missing (directory ++ [name]))
            else .error .notFound

/-- The names of a path. -/
def names (path : String) : List String :=
  ((Text.cutAt (· == '/') path.toList).filter fun name => !name.isEmpty).map String.ofList

/-- Whether a path asks for a directory. -/
def endsInSlash (path : String) : Bool :=
  path.toList.getLast? == some '/'

/-- Whether a path starts at the root. -/
def startsInSlash (path : String) : Bool :=
  path.toList.head? == some '/'

/-- What a path leads to. -/
def locate (tree : FileTree) (path : String) : Except FileError Target :=
  if path.toList.isEmpty then
    .error .notFound
  else if maxPathBytes < path.utf8ByteSize then
    .error .nameTooLong
  else
    tree.follow (if startsInSlash path then [] else tree.workingDirectory) (names path)

/-- Read a file as text. -/
def read (tree : FileTree) (path : String) : Except FileError String :=
  match tree.locate path with
  | .error e => .error e
  | .ok .directory => .error .isDirectory
  | .ok (.missing _) => .error .notFound
  | .ok .unnameable => .error .nameTooLong
  | .ok (.file _ bytes) =>
      if endsInSlash path then
        .error .notDirectory
      else
        match String.fromUTF8? bytes with
        | some text => .ok text
        | none => .error .notText

/-- Write a text to a file, which is made if it is missing. -/
def write (tree : FileTree) (path content : String) : Except FileError FileTree :=
  match tree.locate path with
  | .error e => .error e
  | .ok target =>
      if endsInSlash path then
        .error .isDirectory
      else
        match target with
        | .directory => .error .isDirectory
        | .unnameable => .error .nameTooLong
        | .missing place => .ok (tree.put place (.file content.toUTF8))
        | .file place _ => .ok (tree.put place (.file content.toUTF8))

/-- Reading and writing the files of a tree. -/
def access : FileAccess (StateM FileTree) where
  read path := do
    return (← get).read path
  write path content := do
    match (← get).write path content with
    | .ok tree =>
        set tree
        return .ok ()
    | .error e => return .error e

end FileTree

end Asm32
