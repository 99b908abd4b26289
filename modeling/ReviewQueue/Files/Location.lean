import ReviewQueue.Path
import ReviewQueue.Store.Fault

/-!
# Where a database lies

A path names the file of a database, or it is a location: `file:`, perhaps an authority, a name, and options after a question mark.
In the name and the options a byte may be escaped, as two hexadecimal digits after a percent sign. What follows a number sign is
left out. Without a name, under the name `:memory:` and by some options a database lies in no file. Such a database is taken to be
its connection's own; that an option may let other connections see it is left out.
-/

namespace ReviewQueue

/-- What may be done with the file of a database. -/
inductive Access where
  /-- It is read. -/
  | view
  /-- It is read and written. -/
  | change
  /-- It is read and written, and made if it is missing. -/
  | make
  /-- There is none. -/
  | memory
  deriving DecidableEq, Repr

/-- How the connections to a file know of each other. -/
inductive Sharing where
  /-- By locks and by the memory that they share. -/
  | full
  /-- By nothing that a lock elsewhere could be seen by. -/
  | blind
  /-- The database is in memory. -/
  | memory
  deriving DecidableEq, Repr

/-- Where a database lies and how it is used. -/
structure Location where
  name : Bytes
  access : Access := .make
  sharing : Sharing := .full
  options : List (Bytes × Bytes) := []
  deriving DecidableEq, Repr

namespace Access

/-- The access of a word. -/
def ofWord? (word : Bytes) : Option Access :=
  if word = bytesOf "ro" then some view
  else if word = bytesOf "rw" then some change
  else if word = bytesOf "rwc" then some make
  else if word = bytesOf "memory" then some memory
  else none

/-- How much an access allows. -/
def level : Access → Nat
  | view => 0
  | change => 1
  | make => 2
  | memory => 3

/-- Whether an option can ask for an access after another one was settled. -/
def admits (settled : Access) (a : Access) : Bool := a = memory || a.level ≤ settled.level

end Access

/-- The sharing of a word. -/
def Sharing.ofWord? (word : Bytes) : Option Sharing :=
  if word = bytesOf "unix" ∨ word = bytesOf "unix-excl" then some full
  else if word = bytesOf "unix-none" ∨ word = bytesOf "unix-dotfile" then some blind
  else if word = bytesOf "memdb" then some memory
  else none

namespace Location

/-! ## Reading -/

/-- The value of a hexadecimal digit. -/
def hexDigit? (b : UInt8) : Option Nat :=
  if 0x30 ≤ b ∧ b ≤ 0x39 then some (b.toNat - 0x30)
  else if 0x41 ≤ b ∧ b ≤ 0x46 then some (b.toNat - 0x37)
  else if 0x61 ≤ b ∧ b ≤ 0x66 then some (b.toNat - 0x57)
  else none

/-- The byte that is escaped by what follows a percent sign, and what comes after that. -/
def escaped? : Bytes → Option (UInt8 × Bytes)
  | a :: b :: rest => do return (.ofNat (16 * (← hexDigit? a) + (← hexDigit? b)), rest)
  | _ => none

/-- Read up to a byte that ends a part, escapes resolved: the part, and the text from that byte on. The part is over where a byte 0
is escaped. -/
def unescape (ends : UInt8 → Bool) : Nat → Bytes → Bytes × Bytes
  | 0, s => ([], s)
  | _, [] => ([], [])
  | n + 1, b :: rest =>
    if ends b then ([], b :: rest)
    else
      let (byte, rest) := if b = 0x25 then (escaped? rest).getD (b, rest) else (b, rest)
      if byte = 0 then ([], rest.dropWhile (!ends ·))
      else let (part, rest) := unescape ends n rest; (byte :: part, rest)

/-- Read an option: its name and, after an equals sign, its value. -/
def readOption (s : Bytes) : Bytes × Bytes :=
  let (name, rest) := unescape (· = 0x3D) s.length s
  (name, (unescape (fun _ => false) s.length (rest.drop 1)).1)

/-- What stands between the ampersands of a text. -/
def pieces : Bytes → List Bytes
  | [] => [[]]
  | b :: rest =>
    if b = 0x26 then [] :: pieces rest
    else match pieces rest with
      | [] => [[b]]
      | piece :: others => (b :: piece) :: others

/-- The options of a text. Those without a name do not count. -/
def readOptions (s : Bytes) : List (Bytes × Bytes) := ((pieces s).map readOption).filter (·.1 ≠ [])

/-- A text without the authority that it starts with. Only this host is one. -/
def afterAuthority : Bytes → Except Fault Bytes
  | 0x2F :: 0x2F :: rest =>
    let authority := rest.takeWhile (· ≠ Path.slash)
    if authority = [] ∨ authority = bytesOf "localhost" then .ok (rest.dropWhile (· ≠ Path.slash))
    else .error (.other 1 ("invalid uri authority: " ++ Utf8.lossy authority))
  | s => .ok s

/-- A location with one more option heeded. -/
def heed (l : Location) (o : Bytes × Bytes) : Except Fault Location :=
  if o.1 = bytesOf "cache" then
    if o.2 = bytesOf "shared" ∨ o.2 = bytesOf "private" then .ok l
    else .error (.other 1 ("no such cache mode: " ++ Utf8.lossy o.2))
  else if o.1 = bytesOf "mode" then
    match Access.ofWord? o.2 with
    | none => .error (.other 1 ("no such access mode: " ++ Utf8.lossy o.2))
    | some access =>
      if l.access.admits access then .ok { l with access }
      else .error (.other 3 ("access mode not allowed: " ++ Utf8.lossy o.2))
  else .ok l

/-- The location once the way of sharing is settled, by the last option that names one. -/
def share (l : Location) : Except Fault Location :=
  match (l.options.filter (·.1 = bytesOf "vfs")).getLast? with
  | none => .ok l
  | some o => match Sharing.ofWord? o.2 with
    | none => .error (.other 1 ("no such vfs: " ++ Utf8.lossy o.2))
    | some sharing => .ok { l with sharing }

/-- The location that follows the scheme. -/
def read (s : Bytes) : Except Fault Location := do
  let s := (← afterAuthority s).takeWhile (· ≠ 0x23)
  let (name, rest) := unescape (· = 0x3F) s.length s
  let options := readOptions (rest.drop 1)
  (← options.foldlM heed { name, options }).share

/-- The scheme of locations. -/
def scheme : Bytes := bytesOf "file:"

/-- The location that a path is or the file that it names. -/
def ofPath (path : Path) : Except Fault Location :=
  if scheme <+: path.bytes then read (path.bytes.drop scheme.length) else .ok { name := path.bytes }

/-! ## Options -/

/-- The value of an option, that which is given first. -/
def option? (l : Location) (name : String) : Option Bytes := l.options.lookup (bytesOf name)

/-- Whether a value means yes: digits that stand for a number whose last eight bits are not all zero, or a word. -/
def isYes (value : Bytes) : Bool :=
  let digits := value.takeWhile fun b => 0x30 ≤ b && b ≤ 0x39
  if digits = [] then
    let folded := value.map fun b => if 0x41 ≤ b && b ≤ 0x5A then b + 0x20 else b
    folded = bytesOf "on" || folded = bytesOf "yes" || folded = bytesOf "true"
  else
    let n := digits.foldl (fun n b => 10 * n + (b.toNat - 0x30)) 0
    n ≤ 2147483647 && n % 256 ≠ 0

/-- Whether an option is given and means yes. -/
def asks (l : Location) (name : String) : Bool := (l.option? name).any isYes

/-- Whether the database lies in no file. -/
def isOwn (l : Location) : Bool :=
  l.name = [] || l.name = bytesOf ":memory:" || l.access = .memory || l.sharing = .memory

/-- Whether nobody is to change the file meanwhile, so that it is read only. -/
def isFrozen (l : Location) : Bool := l.asks "immutable"

/-- Whether locks elsewhere are not seen. -/
def isBlind (l : Location) : Bool := l.sharing = .blind || l.asks "nolock"

/-- The word for how changes are recorded in a database that lies in no file. -/
def ownJournal (l : Location) : String := if l.name = [] && l.access ≠ .memory then "delete" else "memory"

end Location
end ReviewQueue
