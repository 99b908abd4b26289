import ReviewQueue.Store.Connection

/-!
# Edits

Rows can be added, changed and removed without the queue's operations, under the rules of the layouts or, for restoring what
other programs left behind, without references and words being looked at.
-/

namespace ReviewQueue

/-- A change to one row of a table. -/
inductive Edit where
  | add (table : String) (cells : List (String × Cell))
  | change (table : String) (id : Int) (cells : List (String × Cell))
  | remove (table : String) (id : Int)
  deriving Repr

namespace Edit

/-- The guard of an edit: the connection's, or none. -/
def guard (c : Connection) (unchecked : Bool) : Guard :=
  if unchecked then { references := false, words := false } else c.guard

/-- Carry out an edit: the number of the new row, or how many rows were changed or removed, and the database after it. -/
def run (e : Edit) (c : Connection) (unchecked : Bool) : Except Fault (Int × Database) :=
  let g := guard c unchecked
  match e with
  | .add table cells =>
    let s : Insertion := { table, cells }
    c.keep (s.owing g c.database 0) false <| c.write (s.faults g c.database) do
      let id ← s.number (← c.database.need table)
      return (id, (← s.run g c.database).2)
  | .change table id cells =>
    let s : Change := { table, cells, having := [("id", .int id)] }
    c.keep (s.owing g c.database 0) false <|
      c.write (s.faults g c.database) ((s.run g c.database).map fun (rows, db) => ((rows.length : Int), db))
  | .remove table id =>
    let s : Removal := ⟨table, [("id", .int id)]⟩
    c.keep (s.owing g c.database 0) false <|
      c.write (s.faults g c.database) ((s.run g c.database).map fun (n, db) => ((n : Int), db))

end Edit
end ReviewQueue
