import ReviewQueue.Files.FileSystem
import ReviewQueue.Files.Location
import ReviewQueue.Store.Migration

/-!
# Opening a database

A database is opened at a path: its directory is made if need be, its file is made ready for readers beside one writer, and it is
migrated. A failure leaves no handle behind. The lock for writing on a file is held by at most one connection. A path that is a
location can ask for a file that is only read, or is written whether another connection holds the lock or not.
-/

namespace ReviewQueue

/-- What a handle is connected to: a file, or a database of its own that nobody else sees. -/
inductive Target where
  | shared (place : Place)
  /-- A file that is only read. -/
  | viewed (place : Place)
  /-- A file that is used whether another connection holds the lock or not. -/
  | blind (place : Place)
  | own (db : Database)
  deriving DecidableEq, Repr

/-- An open connection. -/
structure Handle where
  target : Target
  /-- The path it was opened at. -/
  path : Option Path := none
  enforcing : Bool := true
  busyTimeoutMs : Nat := 5000
  journalMode : String := "memory"
  /-- Whether a holder of the connection failed while it had it. -/
  poisoned : Bool := false
  deriving DecidableEq, Repr

/-- A tree of files and the files on which a connection that is none of the handles holds the lock. -/
structure Disk where
  files : FileSystem
  locks : List Place := []
  deriving DecidableEq, Repr

/-- How opening ends. -/
inductive Opening where
  | opened (handle : Handle)
  | failed (error : StoreError)
  /-- The time to wait for a lock is longer than can be asked for. -/
  | aborted
  deriving DecidableEq, Repr

namespace Disk

/-- The segments of a path taken by its letters alone, from the current directory; two dots remove the segment before them. -/
def placeOf (d : Disk) (p : Path) : Place :=
  (Path.cut p.bytes).foldl (fun place piece =>
      if Path.isBlank piece then place else if piece = Path.dotDot then place.dropLast else place ++ [piece])
    (if p.bytes.head? = some Path.slash then [] else d.files.here)

/-- Whether another connection holds the lock on a file. -/
def isLocked (d : Disk) (place : Place) : Bool := d.locks.contains place

/-- The disk with a database in a file; how the file is shared stays. -/
def store (d : Disk) (place : Place) (db : Database) : Disk :=
  let wal := match d.files.node? place with
    | some (.database _ wal) => wal
    | _ => false
  { d with files := d.files.put place (.database db wal) }

/-- How many bytes longer than that of a database the name of the file beside it is. -/
def besideLength : Nat := 8

/-- The length of the longest path of a database or of the file beside it, in bytes from the root. -/
def longestPath : Nat := 512

/-- The length of the path of a place from the root, in bytes. -/
def pathLength (place : Place) : Nat := place.flatten.length + place.length

/-- Whether the name of the file beside a database is not too long. -/
def hasRoomBeside (place : Place) : Bool := (place.getLast?.getD []).length + besideLength ≤ FileSystem.longestName

/-- Make sure that there is a file at a place, an empty one if there was nothing. -/
def touch (d : Disk) (path : Path) (place : Place) : Except Fault Disk :=
  if longestPath < pathLength place + besideLength then .error (.cannotOpen path)
  else match d.files.node? place with
    | some .directory => .error (.cannotOpen path)
    | some _ => .ok d
    | none =>
      if d.files.node? place.dropLast = some .directory ∧ (place.getLast?.getD []).length ≤ FileSystem.longestName then
        .ok { d with files := d.files.put place (.file []) }
      else .error (.cannotOpen path)

/-- The database in a file and whether readers and writers get along. A file of less than two bytes holds an empty database. -/
def load (d : Disk) (place : Place) : Except Fault (Database × Bool) :=
  match d.files.node? place with
  | some (.database db wal) => .ok (db, wal)
  | some (.file bytes) => if bytes.length < 2 then .ok (.empty, false) else .error .notADatabase
  | _ => .ok (.empty, false)

/-- Let readers and the writer of a file get along from now on. -/
def shareReading (d : Disk) (place : Place) : Except Fault Disk := do
  let (db, wal) ← d.load place
  if wal then return d
  else if d.isLocked place then .error .locked
  else if !hasRoomBeside place then .error .cannotOpenBeside
  else return { d with files := d.files.put place (.database db true) }

/-- A connection to a file. -/
def connect (d : Disk) (place : Place) (enforcing : Bool) : Except Fault Connection := do
  let (db, _) ← d.load place
  return { database := db, enforcing, locked := d.isLocked place }

/-- The longest time to wait for a lock that can be asked for, in milliseconds. -/
def longestWait : Nat := 2147483647

/-- The line that is logged when a file is ready. -/
def openedLine (path : Path) : LogLine := ⟨.debug, "Opened review queue at " ++ path.display⟩

/-- What opening ends with once a migration is over: the error that it answers or else the handle. -/
def finish (handle : Handle) (path : Path) (answer : Except StoreError Unit) (log : List LogLine) : Opening × List LogLine :=
  let log := openedLine path :: log
  match answer with
  | .error e => (.failed e, log)
  | .ok () => (.opened { handle with path := some path }, log)

/-- Migrate a file that is ready, and give a handle to it. -/
def openShared (d : Disk) (path : Path) (place : Place) (busyTimeoutMs : Nat) : Opening × Disk × List LogLine :=
  match (do
    let d ← d.shareReading place
    return (d, ← d.connect place true) : Except Fault (Disk × Connection)) with
  | .error f => (.failed (.ofFault f), d, [])
  | .ok (d, connection) =>
    let migrated := connection.migrate
    let (opening, log) := finish { target := .shared place, busyTimeoutMs, journalMode := "wal" } path migrated.answer migrated.log
    (opening, d.store place migrated.connection.database, log)

/-- Give a handle to a file that is only read. Nothing is written, so it has to be ready and migrated. -/
def openViewed (d : Disk) (path : Path) (l : Location) (place : Place) (busyTimeoutMs : Nat) : Opening × List LogLine :=
  match d.load place with
  | .error f => (.failed (.ofFault f), [])
  | .ok (db, wal) =>
    if !wal && !l.isFrozen then (.failed (.ofFault .readOnly), [])
    else
      let migrated := ({ database := db } : Connection).migrateUnwritten .readOnly
      finish { target := .viewed place, busyTimeoutMs, journalMode := if l.isFrozen then "delete" else "wal" } path migrated.1
        migrated.2

/-- Migrate a file whose locks are not seen, and give a handle to it. Readers that share memory with its writer are in the way. -/
def openBlind (d : Disk) (path : Path) (place : Place) (busyTimeoutMs : Nat) : Opening × Disk × List LogLine :=
  match d.load place with
  | .error f => (.failed (.ofFault f), d, [])
  | .ok (db, wal) =>
    if wal then (.failed (.ofFault .cannotOpenBeside), d, [])
    else if hasRoomBeside place then
      let migrated := ({ database := db } : Connection).migrate
      let (opening, log) := finish { target := .blind place, busyTimeoutMs, journalMode := "delete" } path migrated.answer migrated.log
      (opening, d.store place migrated.connection.database, log)
    else
      let migrated := ({ database := db } : Connection).migrateUnwritten .cannotOpenBeside
      let (opening, log) := finish { target := .blind place, busyTimeoutMs, journalMode := "delete" } path migrated.1 migrated.2
      (opening, d, log)

/-- Give a handle to a database of its own. -/
def openOwn (path : Path) (l : Location) (busyTimeoutMs : Nat) : Opening × List LogLine :=
  let own : Connection := { database := .empty }
  if l.access = .view then
    let migrated := own.migrateUnwritten .readOnly
    finish { target := .own .empty, busyTimeoutMs, journalMode := l.ownJournal } path migrated.1 migrated.2
  else
    let migrated := own.migrate
    finish { target := .own migrated.connection.database, busyTimeoutMs, journalMode := l.ownJournal } path migrated.answer
      migrated.log

/-- The disk once there is what a location asks for: nothing if the database lies in no file, and else the file, which is made if
that may be done. -/
def ready (d : Disk) (path : Path) (l : Location) : Except Fault Disk :=
  if l.isOwn then .ok d
  else
    let place := d.placeOf ⟨l.name⟩
    match l.access with
    | .make =>
      -- a new file may be asked to be like another one, which has to be there whether the file is new or not
      if (l.option? "modeof").any fun other => !d.files.has ⟨other⟩ then .error (.other 1802 "disk I/O error")
      else d.touch path place
    | access =>
      match d.files.node? place with
      | none => .error (.cannotOpen path)
      | some .directory => .error (if access = .view then .other 266 "disk I/O error" else .cannotOpen path)
      | some _ => .ok d

/-- Open a location that is ready. -/
def openReady (d : Disk) (path : Path) (l : Location) (busyTimeoutMs : Nat) : Opening × Disk × List LogLine :=
  let place := d.placeOf ⟨l.name⟩
  if l.isOwn then
    let (opening, log) := openOwn path l busyTimeoutMs
    (opening, d, log)
  else if l.access = .view || l.isFrozen then
    let (opening, log) := d.openViewed path l place busyTimeoutMs
    (opening, d, log)
  else if l.isBlind then d.openBlind path place busyTimeoutMs
  else d.openShared path place busyTimeoutMs

/-- Open what a path names once its directory is there. How long to wait is settled after the file was found. -/
def openNamed (d : Disk) (path : Path) (busyTimeoutMs : Nat) : Opening × Disk × List LogLine :=
  match (do
    let l ← Location.ofPath path
    return (l, ← d.ready path l) : Except Fault (Location × Disk)) with
  | .error f => (.failed (.ofFault f), d, [])
  | .ok (l, d) => if longestWait < busyTimeoutMs then (.aborted, d, []) else d.openReady path l busyTimeoutMs

/-- Open the database at a path. -/
def openAt (d : Disk) (path : Path) (busyTimeoutMs : Nat := 5000) : Opening × Disk × List LogLine :=
  let parent := path.parent?.getD ⟨[]⟩
  match d.files.makeDirectories parent with
  | (files, some f) => (.failed (.setup parent f.message), { d with files }, [])
  | (files, none) =>
    let d := { d with files }
    match path.bytes.findIdx? (· = 0) with
    | some position => (.failed (.fault (.nulInPath position)), d, [])
    | none => d.openNamed path busyTimeoutMs

end Disk

/-- A handle to a migrated database in memory. -/
def Handle.inMemory : Opening × List LogLine :=
  let migrated := ({ database := .empty } : Connection).migrate
  match migrated.answer with
  | .error e => (.failed e, migrated.log)
  | .ok () => (.opened { target := .own migrated.connection.database }, migrated.log)

end ReviewQueue
