import Mixtures.Error
import Mixtures.Store.Codec

/-!
# File systems

A file system is a tree of directories with files at its ends, kept as a list of the places that
exist, as far as they are known. One directory is the working directory, and paths are resolved
from there. The names `.` and `..` stand for the directory reached so far and the one above it;
every name but the last has to lead to a directory. The working directory and the directories
above it always exist. Absolute paths are left out: a slash at the start of a path counts for
nothing, so such a path is resolved from the working directory like any other. Symbolic links and
permissions are left out as well.

The operations fail for the reasons, and in the order, in which a system of this kind reports
them.
-/

namespace Mixtures.Store

/-- Where a file or directory is: a number of directories up from the working directory, and from
there down along names. -/
structure Place where
  /-- The number of directories up. -/
  above : Nat
  /-- The names down. -/
  names : List String
deriving DecidableEq, Repr

namespace Place

/-- The working directory. -/
def workingDirectory : Place := ⟨0, []⟩

/-- The place of a name in the directory at a place. -/
def child (place : Place) (name : String) : Place := ⟨place.above, place.names ++ [name]⟩

/-- The place of the directory above. -/
def parent (place : Place) : Place :=
  if place.names = [] then ⟨place.above + 1, []⟩ else ⟨place.above, place.names.dropLast⟩

end Place

/-- What exists at a place. -/
inductive Entry where
  /-- A file with its content. -/
  | file (content : Bytes)
  /-- A directory. -/
  | directory
deriving DecidableEq, Repr

/-- A path as it was written, cut at its slashes. -/
structure Path where
  /-- What stands before, between and after the slashes; a piece may be empty. -/
  pieces : List String
deriving DecidableEq, Repr

namespace Path

/-- Reads a path. -/
def parse (text : String) : Path := ⟨text.splitOn "/"⟩

/-- The names on the path. An empty piece counts for nothing. -/
def names (path : Path) : List String := path.pieces.filter (· ≠ "")

/-- A slash follows the last name, so it has to be a directory. -/
def endsInSlash (path : Path) : Bool :=
  decide (1 < path.pieces.length) && path.pieces.getLast? == some ""

/-- The length of the path in bytes. A slash follows every piece but the last. -/
def byteCount (path : Path) : Nat :=
  path.pieces.foldl (fun n piece => n + piece.utf8ByteSize + 1) 0 - 1

/-- The longest path, in bytes. -/
def maxBytes : Nat := 4095

/-- The longest name on a path, in bytes. -/
def maxNameBytes : Nat := 255

/-- Refuses a path that no operation takes, whatever exists: zero ends the text of a path, so it
cannot be a character of it, and a path has a greatest length. -/
def check (path : Path) : Except FileFault Unit :=
  if path.pieces.any fun piece => piece.toList.contains '\x00' then .error .zeroCharacter
  else if maxBytes < path.byteCount then .error .invalidName
  else .ok ()

/-- The path of a name in the directory at a path. -/
def child (path : Path) (name : String) : Path := ⟨path.pieces ++ [name]⟩

/-- The path of the directory that holds the last name; pieces that are empty or `.` are no
names here. The path without pieces is that of the working directory. -/
def parent (path : Path) : Path :=
  let isIdle (piece : String) : Bool := piece == "" || piece == "."
  ⟨(((path.pieces.reverse.dropWhile isIdle).drop 1).dropWhile isIdle).reverse⟩

end Path

/-- The files and directories that are known. -/
structure FileSystem where
  /-- All places that are known to exist, besides the working directory and those above it. -/
  entries : List (Place × Entry)
deriving DecidableEq, Repr

namespace FileSystem

/-- A file system with an empty working directory, and nothing known elsewhere. -/
def empty : FileSystem := ⟨[]⟩

/-- What exists at a place. -/
def lookup (fs : FileSystem) (place : Place) : Option Entry :=
  if place.names = [] then some .directory else fs.entries.lookup place

/-- The file system after a place has received an entry, in the stead of what was there. -/
def put (fs : FileSystem) (place : Place) (entry : Entry) : FileSystem :=
  if fs.entries.any fun e => e.1 == place then
    ⟨fs.entries.map fun e => if e.1 == place then (place, entry) else e⟩
  else ⟨fs.entries ++ [(place, entry)]⟩

/-- The file system without a place. -/
def remove (fs : FileSystem) (place : Place) : FileSystem :=
  ⟨fs.entries.filter fun e => e.1 != place⟩

/-- The directory that names lead to from another one. -/
def enter (fs : FileSystem) : Place → List String → Except FileFault Place
  | place, [] => .ok place
  | place, name :: names =>
    if name = "." then fs.enter place names
    else if name = ".." then fs.enter place.parent names
    else if Path.maxNameBytes < name.utf8ByteSize then .error .invalidName
    else
      match fs.lookup (place.child name) with
      | none => .error .notFound
      | some (.file _) => .error .notDirectory
      | some .directory => fs.enter (place.child name) names

/-- Where a path leads: to a directory named by `.` or `..`, or to a name in a directory, which
may exist or not. -/
inductive Target where
  /-- A directory, by reference to another one. -/
  | reference (place : Place)
  /-- A name in a directory. -/
  | named (place : Place)
deriving DecidableEq, Repr

/-- Resolves a path up to its last name. -/
def resolve (fs : FileSystem) (path : Path) : Except FileFault Target := do
  path.check
  match path.names.getLast? with
  | none => throw .notFound
  | some last =>
    let directory ← fs.enter .workingDirectory path.names.dropLast
    if last = "." then return .reference directory
    else if last = ".." then return .reference directory.parent
    else if Path.maxNameBytes < last.utf8ByteSize then throw .invalidName
    else return .named (directory.child last)

/-- The content of a file. -/
def read (fs : FileSystem) (path : Path) : Except FileFault Bytes := do
  match ← fs.resolve path with
  | .reference _ => throw .isDirectory
  | .named place =>
    match fs.lookup place with
    | none => throw .notFound
    | some .directory => throw .isDirectory
    | some (.file content) => if path.endsInSlash then throw .notDirectory else return content

/-- Creates a file, or replaces the content of one. A path that ends in a slash names no file,
whatever its last name is. -/
def write (fs : FileSystem) (path : Path) (content : Bytes) : Except FileFault FileSystem := do
  if path.endsInSlash then
    path.check
    let _ ← fs.enter .workingDirectory path.names.dropLast
    throw .isDirectory
  else
    match ← fs.resolve path with
    | .reference _ => throw .isDirectory
    | .named place =>
      if fs.lookup place == some .directory then throw .isDirectory
      else return fs.put place (.file content)

/-- Creates a directory. -/
def makeDirectory (fs : FileSystem) (path : Path) : Except FileFault FileSystem := do
  match ← fs.resolve path with
  | .reference _ => throw .alreadyExists
  | .named place =>
    if (fs.lookup place).isSome then throw .alreadyExists else return fs.put place .directory

/-- The sorted names in a directory. -/
def list (fs : FileSystem) (path : Path) : Except FileFault (List String) := do
  path.check
  if path.names.isEmpty then throw .notFound
  let place ← fs.enter .workingDirectory path.names
  let names := (fs.entries.filter fun e => e.1.parent == place).filterMap fun e =>
    e.1.names.getLast?
  return names.mergeSort fun a b => !decide (b < a)

/-- Gives the file at one place another name, replacing a file that has it. -/
def rename (fs : FileSystem) (source : Place) (path : Path) : Except FileFault FileSystem := do
  match ← fs.resolve path with
  | .reference _ => throw .busy
  | .named place =>
    if path.endsInSlash then throw .notDirectory
    else
      match fs.lookup place, fs.lookup source with
      | some .directory, _ => throw .isDirectory
      | _, some entry => return (fs.remove source).put place entry
      | _, none => throw .notFound

/-- The first of some names for fresh files under which nothing exists in a directory. -/
def firstFreeName (fs : FileSystem) (directory : Place) : String :=
  let candidates := (List.range (fs.entries.length + 1)).map fun n =>
    ".tmp" ++ toString (100000 + n)
  (candidates.find? fun name => (fs.lookup (directory.child name)).isNone).getD ".tmp000000"

/-- A place for a fresh file in the directory at a path, under a name that is chosen there. The
length of the name is that of all names for fresh files. -/
def freshPlace (fs : FileSystem) (freshName : FileSystem → Place → String) (directory : Path) :
    Except FileFault Place := do
  (directory.child ".tmp000000").check
  let place ← fs.enter .workingDirectory directory.names
  return place.child (freshName fs place)

end FileSystem

end Mixtures.Store
