import ReviewQueue.Text.Utf8

/-!
# Paths

A path is a string of bytes. Its pieces are what stands between slashes; a blank piece (empty, or a single dot) names nothing,
except that a leading dot and a leading slash say where the path starts. The last segment, the parent and the joining of paths
are defined on the pieces.
-/

namespace ReviewQueue

/-- A path of a file system: any bytes. -/
structure Path where
  bytes : Bytes
  deriving DecidableEq, Repr, Inhabited

namespace Path

/-- The byte between two segments. -/
def slash : UInt8 := 0x2F

/-- The piece that names the directory it stands in. -/
def dot : Bytes := [0x2E]

/-- The piece that names the directory above. -/
def dotDot : Bytes := [0x2E, 0x2E]

/-- The path written as a text. -/
def ofString (s : String) : Path := ⟨bytesOf s⟩

/-- The path as a text, broken bytes replaced. -/
def display (p : Path) : String := Utf8.lossy p.bytes

/-- The path as a text, if it is one. -/
def toText? (p : Path) : Option String := (Utf8.decode p.bytes).toOption

/-- What stands between the slashes of a byte string; never the empty list. -/
def cut : Bytes → List Bytes
  | [] => [[]]
  | b :: rest =>
    if b = slash then [] :: cut rest
    else match cut rest with
      | [] => [[b]]
      | piece :: pieces => (b :: piece) :: pieces

/-- The pieces put together again, a slash between any two. -/
def weld : List Bytes → Bytes
  | [] => []
  | [piece] => piece
  | piece :: pieces => piece ++ slash :: weld pieces

/-- Where a path starts: at the root, at an explicit leading dot, or at its first piece. -/
inductive Start where
  | root | here | bare
  deriving DecidableEq, Repr

/-- The bytes a start is written with. -/
def Start.bytes : Start → Bytes
  | .root => [slash]
  | .here => dot
  | .bare => []

/-- Whether a piece names nothing. -/
def isBlank (piece : Bytes) : Bool := piece = [] || piece = dot

/-- The start of a path and the pieces after it. -/
def split (p : Path) : Start × List Bytes :=
  match cut p.bytes with
  | [] => (.bare, [])
  | first :: rest =>
    if first = [] then (if p.bytes = [] then (.bare, []) else (.root, rest))
    else if first = dot then (.here, rest)
    else (.bare, first :: rest)

/-- Pieces without the blank ones at the end. -/
def trimEnd (pieces : List Bytes) : List Bytes := (pieces.reverse.dropWhile isBlank).reverse

/-- The last segment of a path, blank pieces at the end not counted; none if that is `..` or there is none. -/
def fileName? (p : Path) : Option Bytes :=
  match (trimEnd p.split.2).getLast? with
  | none => none
  | some piece => if piece = dotDot then none else some piece

/-- A start and the pieces after it as one path. -/
def assemble (start : Start) (pieces : List Bytes) : Path :=
  match start, pieces with
  | start, [] => ⟨start.bytes⟩
  | .root, pieces => ⟨slash :: weld pieces⟩
  | .here, pieces => ⟨dot ++ slash :: weld pieces⟩
  | .bare, pieces => ⟨weld pieces⟩

/-- The path without its last segment. The root and the empty path have no parent; a lone dot has the empty one. -/
def parent? (p : Path) : Option Path :=
  match p.split with
  | (start, pieces) =>
    match trimEnd pieces, start with
    | [], .here => some ⟨[]⟩
    | [], _ => none
    | piece :: rest, start => some (assemble start (trimEnd (piece :: rest).dropLast))

/-- `q` as seen from `p`: `q` itself if it starts at the root, else `q` below `p`. -/
def join (p q : Path) : Path :=
  if q.bytes.head? = some slash then q
  else if p.bytes = [] || p.bytes.getLast? = some slash then ⟨p.bytes ++ q.bytes⟩
  else ⟨p.bytes ++ slash :: q.bytes⟩

/-- `join` with a fixed segment. -/
def under (p : Path) (name : String) : Path := p.join (ofString name)

/-- The name shown for what lies at a path: its last segment, or the whole path if it has none. -/
def displayName (p : Path) : String := Utf8.lossy (p.fileName?.getD p.bytes)

end Path
end ReviewQueue
