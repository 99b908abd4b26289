import ReviewQueue.Path
import ReviewQueue.Toml.Document

/-!
# Settings

Where the database lies and how long to wait for a lock. In TOML settings are written as one entry a line and read from any
document; names that mean nothing here do not count, and an entry that is missing has its default.
-/

namespace ReviewQueue

/-- The settings of a store. -/
structure Settings where
  /-- The database file; if none is given it lies in the data directory. -/
  dbPath : Option Path := none
  /-- How long a statement waits for a lock, in milliseconds. -/
  busyTimeoutMs : Nat := 5000
  deriving DecidableEq, Repr, Inhabited

/-- Why settings cannot be written. -/
inductive Unwritable where
  | notText
  | timeoutTooLarge
  deriving DecidableEq, Repr

/-- The words for it. -/
def Unwritable.message : Unwritable → String
  | notText => "path contains invalid UTF-8 characters"
  | timeoutTooLarge => "out-of-range value for u64 type"

namespace Settings

/-- The line for the path of the database, if there is one. -/
def pathLine (dbPath : Option Path) : Except Unwritable (List Char) :=
  match dbPath with
  | none => .ok []
  | some path => match path.toText? with
    | none => .error .notText
    | some text => .ok ("db_path = ".toList ++ Toml.writeQuoted text.toList ++ ['\n'])

/-- Settings as a document. A time to wait is written if it is an integer of 64 bits with a sign. -/
def toToml (s : Settings) : Except Unwritable String := do
  let line ← pathLine s.dbPath
  if Int64.maxValue.toNatClampNeg < s.busyTimeoutMs then .error .timeoutTooLarge
  else return String.ofList (line ++ "busy_timeout_ms = ".toList ++ (toString s.busyTimeoutMs).toList ++ ['\n'])

/-- The path of the database in a document. -/
def readPath? (d : Toml.Document) : Option (Option Path) :=
  match d.item? "db_path" with
  | none => some none
  | some (.value (.text text)) => some (some (.ofString text))
  | some _ => none

/-- The time to wait in a document. -/
def readTimeout? (d : Toml.Document) : Option Nat :=
  match d.item? "busy_timeout_ms" with
  | none => some ({} : Settings).busyTimeoutMs
  | some (.value (.int n)) => if 0 ≤ n then some n.toNat else none
  | some _ => none

/-- Read settings from a document. -/
def ofToml? (text : String) : Option Settings := do
  let d ← Toml.Document.read? text.toList
  return ⟨← readPath? d, ← readTimeout? d⟩

end Settings
end ReviewQueue
