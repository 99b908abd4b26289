import ReviewQueue.Store.Error
import ReviewQueue.Store.Record

/-!
# Connections

A connection is a database as one of its users sees it: whether references are enforced, and whether another user holds the
lock for writing. A statement that writes is looked at first, then waits for the lock, then runs; a statement that reads never
waits. A statement that stands alone is a transaction of its own: it is kept only if no reference that was put off leads nowhere
at its end.
-/

namespace ReviewQueue

/-- How much a line of the log matters. -/
inductive LogLevel where
  | debug | info | warn
  deriving DecidableEq, Repr

/-- A line of the log. -/
structure LogLine where
  level : LogLevel
  text : String
  deriving DecidableEq, Repr

/-- A database in use. -/
structure Connection where
  database : Database
  /-- Whether references are enforced. -/
  enforcing : Bool := true
  /-- Whether another connection holds the lock for writing. -/
  locked : Bool := false
  deriving DecidableEq, Repr

/-- What an operation leads to: its answer, the connection after it and what it logs. -/
structure Outcome (α : Type) where
  answer : Except StoreError α
  connection : Connection
  log : List LogLine := []

namespace Outcome

/-- The outcome of a refusal after which the connection is `c`. -/
def refused {α : Type} (c : Connection) (f : Fault) : Outcome α := ⟨.error (.ofFault f), c, []⟩

/-- The outcome with its answer changed. -/
def map {α β : Type} (f : α → β) (o : Outcome α) : Outcome β := ⟨o.answer.map f, o.connection, o.log⟩

end Outcome

namespace Connection

/-- The rules that a statement keeps. -/
def guard (c : Connection) : Guard := { references := c.enforcing }

/-- The connection on another state of the database. -/
def on (c : Connection) (db : Database) : Connection := { c with database := db }

/-- Run a statement that writes: its faults come first, then the lock. -/
def write {α : Type} (c : Connection) (faults : List Fault) (run : Except Fault (α × Database)) :
    Except Fault (α × Database) :=
  match faults with
  | f :: _ => .error f
  | [] => if c.locked then .error .locked else run

/-- Keep what a statement did at the end of its transaction, in which `owed` references that were put off lead nowhere. A
statement that answers rows has answered them by then, so it is not told if they are not kept. -/
def keep {α : Type} (c : Connection) (owed : Int) (answers : Bool) : Except Fault (α × Database) → Except Fault (α × Database)
  | .error f => .error f
  | .ok (a, db) =>
    if owed ≤ 0 then .ok (a, db)
    else if answers then .ok (a, c.database)
    else .error .dangling

/-- Add a row within a transaction; none is answered if it was left out. -/
def insertWithin (c : Connection) (s : Insertion) : Except Fault (Option Record × Database) :=
  c.write (s.faults c.guard c.database) (s.run c.guard c.database)

/-- Change rows within a transaction; they are answered as they are now. -/
def changeWithin (c : Connection) (s : Change) : Except Fault (List Record × Database) :=
  c.write (s.faults c.guard c.database) (s.run c.guard c.database)

/-- Add a row; none is answered if it was left out. -/
def insert (c : Connection) (s : Insertion) : Except Fault (Option Record × Database) :=
  c.keep (s.owing c.guard c.database 0) (s.returning ≠ []) (c.insertWithin s)

/-- Change rows; they are answered as they are now. -/
def change (c : Connection) (s : Change) : Except Fault (List Record × Database) :=
  c.keep (s.owing c.guard c.database 0) (s.returning ≠ []) (c.changeWithin s)

/-- Find rows and read the first one. -/
def first {α : Type} (c : Connection) (s : Query) (read : Record → Except Fault α) : Except Fault (Option α) := do
  match (← s.run c.database).head? with
  | none => return none
  | some r => return some (← read r)

end Connection
end ReviewQueue
