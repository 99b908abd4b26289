import ReviewQueue.Path
import ReviewQueue.Store.Database

/-!
# Files

Directories and files in a tree, with one directory as the place where relative paths start. A file is bytes or a database. Paths
are followed piece by piece, so that every piece but the last one has to be a directory that is there.
-/

namespace ReviewQueue

/-- What lies at a place of the tree. -/
inductive Node where
  | directory
  | file (bytes : Bytes)
  /-- A database; `wal` tells whether its readers and its writer get along. -/
  | database (db : Database) (wal : Bool)
  deriving DecidableEq, Repr

/-- A place in the tree: the segments from the root. -/
abbrev Place := List Bytes

/-- Why a path does not lead where it should. -/
inductive FileFault where
  | notFound | exists_ | notDirectory | isDirectory | nameTooLong | nul
  deriving DecidableEq, Repr

/-- The words for a fault. -/
def FileFault.message : FileFault → String
  | notFound => "No such file or directory (os error 2)"
  | exists_ => "File exists (os error 17)"
  | notDirectory => "Not a directory (os error 20)"
  | isDirectory => "Is a directory (os error 21)"
  | nameTooLong => "File name too long (os error 36)"
  | nul => "file name contained an unexpected NUL byte"

/-- A tree of files. -/
structure FileSystem where
  nodes : List (Place × Node)
  /-- Where relative paths start. -/
  here : Place
  deriving DecidableEq, Repr

namespace FileSystem

/-- The tree whose only directories are those on the way to `here`. -/
def initial (here : Place) : FileSystem :=
  ⟨(List.range (here.length + 1)).map fun n => (here.take n, .directory), here⟩

/-- What lies at a place. -/
def node? (fs : FileSystem) (place : Place) : Option Node := fs.nodes.lookup place

/-- The tree with something else at a place. -/
def put (fs : FileSystem) (place : Place) (node : Node) : FileSystem :=
  { fs with nodes := (place, node) :: fs.nodes.filter (·.1 ≠ place) }

/-! ## Following paths -/

/-- The longest name of a file, in bytes. -/
def longestName : Nat := 255

/-- The length that a path stays below, in bytes. -/
def pathLimit : Nat := 4096

/-- One piece further from a place, which has to be a directory. -/
def step (fs : FileSystem) (place : Place) (piece : Bytes) : Except FileFault Place :=
  match fs.node? place with
  | none => .error .notFound
  | some .directory =>
    if Path.isBlank piece then .ok place
    else if piece = Path.dotDot then .ok place.dropLast
    else if longestName < piece.length then .error .nameTooLong
    else .ok (place ++ [piece])
  | some _ => .error .notDirectory

/-- The place a path leads to; nothing need be there. -/
def follow (fs : FileSystem) (p : Path) : Except FileFault Place :=
  if p.bytes.contains 0 then .error .nul
  else if p.bytes = [] then .error .notFound
  else if pathLimit ≤ p.bytes.length then .error .nameTooLong
  else (Path.cut p.bytes).foldlM fs.step (if p.bytes.head? = some Path.slash then [] else fs.here)

/-- What a path leads to. -/
def find? (fs : FileSystem) (p : Path) : Option Node :=
  match fs.follow p with
  | .error _ => none
  | .ok place => fs.node? place

/-- Whether a path leads to something. -/
def has (fs : FileSystem) (p : Path) : Bool := (fs.find? p).isSome

/-- Whether a path leads to a directory. -/
def isDirectory (fs : FileSystem) (p : Path) : Bool := fs.find? p = some .directory

/-- The text of the file at a path. A database is no text. -/
def readText? (fs : FileSystem) (p : Path) : Option String :=
  match fs.find? p with
  | some (.file bytes) => (Utf8.decode bytes).toOption
  | _ => none

/-- A path without the slashes at its end; the root stays. -/
def bare (p : Path) : Path :=
  match (p.bytes.reverse.dropWhile (· = Path.slash)).reverse with
  | [] => p
  | bytes => ⟨bytes⟩

/-- The tree after the file at a path was given some bytes. -/
def write (fs : FileSystem) (p : Path) (bytes : Bytes) : Except FileFault FileSystem := do
  let place ← fs.follow (bare p)
  match fs.node? place with
  | some .directory => .error .isDirectory
  | _ => if bare p = p then .ok (fs.put place (.file bytes)) else .error .isDirectory

/-! ## Making directories -/

/-- The tree with one more directory. -/
def makeDirectory (fs : FileSystem) (p : Path) : Except FileFault FileSystem := do
  let place ← fs.follow (bare p)
  match fs.node? place with
  | some _ => .error .exists_
  | none => .ok (fs.put place .directory)

/-- The tree with a directory at a path and with its parents, or as much of it as could be made and why not all. One that is
there is as good as a new one. The fuel bounds the number of parents. -/
def makeDirectoriesWithin (fs : FileSystem) : Nat → Path → FileSystem × Option FileFault
  | 0, _ => (fs, some .notFound)
  | fuel + 1, p =>
    if p.bytes = [] then (fs, none)
    else match fs.makeDirectory p with
      | .ok fs => (fs, none)
      | .error .notFound =>
        match p.parent? with
        | none => (fs, some .notFound)
        | some parent =>
          match makeDirectoriesWithin fs fuel parent with
          | (fs, some f) => (fs, some f)
          | (fs, none) => match fs.makeDirectory p with
            | .ok fs => (fs, none)
            | .error f => (fs, if fs.isDirectory p then none else some f)
      | .error f => (fs, if fs.isDirectory p then none else some f)

/-- The tree with a directory at a path and with its parents, or as much of it as could be made and why not all. -/
def makeDirectories (fs : FileSystem) (p : Path) : FileSystem × Option FileFault :=
  fs.makeDirectoriesWithin (p.bytes.length + 1) p

/-- The tree with some bytes in the file at a path, whose directory is made if need be; or as much of it as could be made and why
not all. -/
def writeWithParents (fs : FileSystem) (p : Path) (bytes : Bytes) : FileSystem × Option FileFault :=
  match fs.makeDirectories (p.parent?.getD ⟨[]⟩) with
  | (fs, some f) => (fs, some f)
  | (fs, none) => match fs.write p bytes with
    | .error f => (fs, some f)
    | .ok fs => (fs, none)

end FileSystem
end ReviewQueue
