import ReviewQueue.Files.Opening
import ReviewQueue.Queue.Operation
import ReviewQueue.Store.Edit

/-!
# Hosts

A host is a disk and the handles that are open on it, each under a name. An operation of a handle sees the database of its file as
the other handles left it. A poisoned handle answers no operation, but rows can still be looked at and edited through it.
-/

namespace ReviewQueue

/-- A disk and the handles open on it. -/
structure Host where
  disk : Disk
  handles : List (String × Handle) := []
  /-- The database that is looked at where no handle is open, if there is one. -/
  main : Option Path := none
  deriving Repr

namespace Host

/-- The handle of a name. -/
def handle? (h : Host) (name : String) : Option Handle := h.handles.lookup name

/-- The host with a handle under a name. -/
def withHandle (h : Host) (name : String) (handle : Handle) : Host :=
  { h with handles := (name, handle) :: h.handles.filter (·.1 ≠ name) }

/-- Close the handle of a name, and tell whether there was one. -/
def close (h : Host) (name : String) : Bool × Host :=
  ((h.handle? name).isSome, { h with handles := h.handles.filter (·.1 ≠ name) })

/-- Mark a handle as one whose holder failed. -/
def poison (h : Host) (name : String) : Host :=
  match h.handle? name with
  | none => h
  | some handle => h.withHandle name { handle with poisoned := true }

/-- The connection of a handle. -/
def connect (h : Host) (handle : Handle) : Except Fault Connection :=
  match handle.target with
  | .own db => .ok { database := db, enforcing := handle.enforcing }
  | .shared place => h.disk.connect place handle.enforcing
  | .viewed place => do
    let (db, _) ← h.disk.load place
    return { database := db, enforcing := handle.enforcing, locked := true }
  | .blind place => do
    let (db, wal) ← h.disk.load place
    if wal then .error .cannotOpenBeside else return { database := db, enforcing := handle.enforcing }

/-- The host after the connection of a handle was used. -/
def settle (h : Host) (name : String) (handle : Handle) (c : Connection) : Host :=
  match handle.target with
  | .own _ => h.withHandle name { handle with target := .own c.database, enforcing := c.enforcing }
  | .shared place | .blind place =>
    { h with disk := h.disk.store place c.database }.withHandle name { handle with enforcing := c.enforcing }
  | .viewed _ => h.withHandle name { handle with enforcing := c.enforcing }

/-- A fault as a handle reports it. To the connection of a file that is only read it looks as if another one were writing. -/
def reported (handle : Handle) (f : Fault) : Fault :=
  match handle.target with
  | .viewed _ => if f = .locked then .readOnly else f
  | _ => f

/-- An error as a handle reports it. -/
def reportedError (handle : Handle) (e : StoreError) : StoreError :=
  if e = .busy .locked then .ofFault (reported handle .locked) else e

/-- Use the connection of a handle. -/
def use {α : Type} (h : Host) (name : String) (handle : Handle) (f : Connection → Outcome α) :
    Except StoreError α × Host × List LogLine :=
  match h.connect handle with
  | .error fault => (.error (.ofFault fault), h, [])
  | .ok c =>
    let o := f c
    (o.answer.mapError (reportedError handle), h.settle name handle o.connection, o.log)

/-- Carry out an operation of a handle. -/
def perform (h : Host) (name : String) (handle : Handle) (now : Timestamp) (op : Operation) :
    Except StoreError Answer × Host × List LogLine :=
  if handle.poisoned then (.error .poisoned, h, [])
  else h.use name handle fun c => c.perform now op

/-- Migrate the database of a handle. -/
def migrate (h : Host) (name : String) (handle : Handle) : Except StoreError Unit × Host × List LogLine :=
  h.use name handle Connection.migrate

/-- Open a path under a name. A handle of that name is replaced only if that succeeds. -/
def openAt (h : Host) (name : String) (path : Path) (busyTimeoutMs : Nat) : Opening × Host × List LogLine :=
  let (opening, disk, log) := h.disk.openAt path busyTimeoutMs
  let h := { h with disk }
  match opening with
  | .opened handle => (opening, h.withHandle name handle, log)
  | _ => (opening, h, log)

/-! ## Locks -/

/-- Take the lock on a file away from all handles. A missing file is made, empty. -/
def lock (h : Host) (path : Path) : Except StoreError Unit × Host :=
  let place := h.disk.placeOf path
  match h.disk.touch path place with
  | .error f => (.error (.ofFault f), h)
  | .ok disk =>
    let h := { h with disk }
    match disk.load place with
    | .error f => (.error (.ofFault f), h)
    | .ok _ =>
      if disk.isLocked place then (.error (.ofFault .locked), h)
      else (.ok (), { h with disk := { disk with locks := place :: disk.locks } })

/-- Give the lock back, and tell whether it was held. -/
def unlock (h : Host) (path : Path) : Bool × Host :=
  let place := h.disk.placeOf path
  (h.disk.isLocked place, { h with disk := { h.disk with locks := h.disk.locks.filter (· ≠ place) } })

/-! ## Looking at rows and editing them -/

/-- Use a connection below the operations: that of a handle, or a new one to the main database. -/
def visit {α : Type} (h : Host) (name : String) (f : Connection → Except Fault (α × Database)) :
    Option (Except StoreError α × Host) :=
  match h.handle? name with
  | some handle => some <|
    match (h.connect handle).bind fun c => (f c).map fun (a, db) => (a, c.on db) with
    | .error fault => (.error (.ofFault (reported handle fault)), h)
    | .ok (a, c) => (.ok a, h.settle name handle c)
  | none => h.main.map fun path =>
    let place := h.disk.placeOf path
    match h.disk.touch path place with
    | .error fault => (.error (.ofFault fault), h)
    | .ok disk =>
      let h := { h with disk }
      match (disk.connect place true).bind f with
      | .error fault => (.error (.ofFault fault), h)
      | .ok (a, db) => (.ok a, if db = .empty then h else { h with disk := disk.store place db })

/-- Look at the database of a handle, or at the main one. -/
def view (h : Host) (name : String) : Option (Except StoreError Database × Host) :=
  h.visit name fun c => .ok (c.database, c.database)

/-- Edit a row through a handle, or in the main database. -/
def edit (h : Host) (name : String) (e : Edit) (unchecked : Bool) : Option (Except StoreError Int × Host) :=
  h.visit name fun c => e.run c unchecked

end Host
end ReviewQueue
