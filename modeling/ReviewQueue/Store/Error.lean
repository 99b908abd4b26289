import ReviewQueue.JobStatus
import ReviewQueue.Store.Fault

/-!
# Errors of the store

Why an operation of the queue failed, in words, and whether to try it again. Only waiting for a lock makes an error worth a second
try; an error inside a migration keeps that property.
-/

namespace ReviewQueue

/-- Why an operation failed. -/
inductive StoreError where
  /-- The place of the database could not be prepared. -/
  | setup (path : Path) (reason : String)
  /-- The layout could not be brought forward. -/
  | migration (fromVersion : Int) (source : StoreError)
  | unknownVersion (version : Int)
  /-- Another connection held a lock for too long. -/
  | busy (fault : Fault)
  | jobNotFound (id : Int)
  /-- A job is not in a status from which it can be finished. -/
  | invalidTransition (id : Int) (source target : JobStatus)
  | invalidStatus (text : String)
  /-- A migration would leave rows that refer to nothing. -/
  | danglingRows (text : String)
  /-- A holder of the connection failed while it had it. -/
  | poisoned
  | fault (fault : Fault)
  deriving DecidableEq, Repr

namespace StoreError

/-- The error a fault is. -/
def ofFault (f : Fault) : StoreError := if f.isContention then busy f else fault f

/-- The words for an error. -/
def message : StoreError → String
  | setup path reason => "Failed to prepare database location " ++ path.display ++ ": " ++ reason
  | migration fromVersion source =>
    "Migration from schema version " ++ toString fromVersion ++ " failed: " ++ source.message
  | unknownVersion version => s!"No migration path from schema version {version}"
  | busy f => "Database is busy: " ++ f.message
  | jobNotFound id => s!"Job not found: {id}"
  | invalidTransition id source target =>
    "Job " ++ toString id ++ " cannot move from " ++ source.word ++ " to " ++ target.word
  | invalidStatus text => s!"Invalid stored job status: {text}"
  | danglingRows text => s!"Foreign key violations after migration: {text}"
  | poisoned => "Database connection lock poisoned"
  | fault f => "SQLite error: " ++ f.message

/-- Whether the same operation may succeed on a second try. -/
def isRetryable : StoreError → Bool
  | busy _ => true
  | migration _ source => source.isRetryable
  | _ => false

end StoreError

/-- A fault where an error of the store is wanted. -/
def liftFault {α : Type} : Except Fault α → Except StoreError α
  | .ok a => .ok a
  | .error f => .error (.ofFault f)

end ReviewQueue
