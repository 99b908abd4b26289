import ReviewQueue.Path
import ReviewQueue.Store.Cell

/-!
# Faults

What can be wrong with a statement, a row or a file of the store, and the words it is reported in.
-/

namespace ReviewQueue

/-- Why a text in a table is not what its column is read as. -/
inductive Unreadable where
  | notUtf8 (at_ : Utf8.Break)
  | notTimestamp
  | notStatus (text : String)
  deriving DecidableEq, Repr

/-- The words for an unreadable text. -/
def Unreadable.message : Unreadable → String
  | notUtf8 b => b.message
  | notTimestamp => "<timestamp>"
  | notStatus text => s!"Invalid stored job status: {text}"

/-- What the store refuses or cannot do. -/
inductive Fault where
  | noTable (name : String)
  | noColumn (name : String)
  /-- A row is to be added with a column that the table does not have. -/
  | noColumnOf (table column : String)
  /-- A conflict is to be ignored on a column whose cells need not differ. -/
  | noConflictTarget
  /-- A table refers to one that has no key. -/
  | mismatch (child parent : String)
  /-- A key is to be something other than an integer. -/
  | badKey
  | nullIn (table column : String)
  | twiceIn (table column : String)
  | notAmong (column : String) (words : List String)
  /-- A reference leads to no row. -/
  | dangling
  /-- Another connection is writing. -/
  | locked
  /-- The file is only to be read. -/
  | readOnly
  | notADatabase
  | cannotOpen (path : Path)
  /-- The file that stands beside a database while it is written cannot be opened. -/
  | cannotOpenBeside
  | nulInPath (position : Nat)
  /-- A cell has a type that the column at `index` of an answer is not read from. -/
  | badType (type : String) (index : Nat) (column : String)
  /-- The text at `index` of an answer cannot be read. -/
  | unreadable (index : Nat) (why : Unreadable)
  | noRow
  /-- Anything else, as a number and a text. -/
  | other (code : Int) (text : String)
  deriving DecidableEq, Repr

namespace Fault

/-- A word between single quotes. -/
def quoted (word : String) : String := "'" ++ word ++ "'"

/-- The words for a fault. -/
def message : Fault → String
  | noTable name => s!"no such table: {name}"
  | noColumn name => s!"no such column: {name}"
  | noColumnOf table column => s!"table {table} has no column named {column}"
  | noConflictTarget => "ON CONFLICT clause does not match any PRIMARY KEY or UNIQUE constraint"
  | mismatch child parent => s!"foreign key mismatch - \"{child}\" referencing \"{parent}\""
  | badKey => "datatype mismatch"
  | nullIn table column => s!"NOT NULL constraint failed: {table}.{column}"
  | twiceIn table column => s!"UNIQUE constraint failed: {table}.{column}"
  | notAmong column words =>
    "CHECK constraint failed: " ++ column ++ " IN (" ++ ",".intercalate (words.map quoted) ++ ")"
  | dangling => "FOREIGN KEY constraint failed"
  | locked => "database is locked"
  | readOnly => "attempt to write a readonly database"
  | notADatabase => "file is not a database"
  | cannotOpen path => "unable to open database file: " ++ path.display
  | cannotOpenBeside => "unable to open database file"
  | nulInPath position => s!"nul byte found in provided data at position: {position}"
  | badType type index column => s!"Invalid column type {type} at index: {index}, name: {column}"
  | unreadable index why => "Conversion error from type Text at index: " ++ toString index ++ ", " ++ why.message
  | noRow => "Query returned no rows"
  | other _ text => text

/-- Whether waiting may help: another connection has a lock. The lowest byte of a number is its class, and the classes 5 and 6
are those of locks. -/
def isContention : Fault → Bool
  | locked => true
  | other code _ => code % 256 = 5 || code % 256 = 6
  | _ => false

end Fault
end ReviewQueue
