import ReviewQueue.Store.Database

/-!
# Statements

A statement adds, changes, removes or finds rows of one table. What is wrong with it can be told in part from the layouts alone:
these faults are listed in the order in which they are reported, before any row is touched. The others depend on the rows; a
statement that runs into one changes nothing. Rows are written one after the other, and the columns say what becomes of a row that
breaks a rule of theirs.

References that are not to be looked at before the end of a transaction are only counted by a statement: how many of them lead
nowhere now. What was counted for one is taken off again when it is mended, but never for one that was not counted.
-/

namespace ReviewQueue

/-- Which of the rules of the layouts a statement keeps. The others are always kept. -/
structure Guard where
  /-- References lead to rows. -/
  references : Bool := true
  /-- Columns hold the words they may hold. -/
  words : Bool := true
  deriving DecidableEq, Repr

/-- Why a row is not written. -/
inductive Stop where
  | refused (fault : Fault)
  /-- The row is left out, which is no fault. -/
  | skipped
  deriving DecidableEq, Repr

/-- A row of an answer: the names of the columns asked for and their cells. -/
abbrev Record := List (String × Cell)

namespace Layout

/-- A fault for each name that means no column. -/
def unknown (l : Layout) (names : List String) : List Fault :=
  names.filterMap fun name => if (l.column? name).isSome then none else some (.noColumn name)

/-- The columns some names mean. -/
def pick (l : Layout) (names : List String) : List Column := names.filterMap l.column?

/-- Whether one of the names means the column. -/
def isGiven (cells : List (String × Cell)) (c : Column) : Bool := cells.any (c.answersTo ·.1)

/-- The cell for a column: the one that is given, brought to its kind, or what the column has where none is given. -/
def cellFor (cells : List (String × Cell)) (c : Column) : Cell :=
  c.settle (((cells.find? (c.answersTo ·.1)).map (·.2.asKind c.kind)).getD c.fallback)

/-- What the cells for some columns stop a row for by themselves: null, and then a word, that a column does not admit. -/
def stop? (l : Layout) (g : Guard) (cells : List (String × Cell)) (columns : List Column) : Option Stop :=
  match columns.find? (fun c => c.required && cellFor cells c = .null) with
  | some c => some (if c.onNull = .skip then .skipped else .refused (.nullIn l.spelling c.name))
  | none => (columns.find? fun c => g.words && !c.admits (cellFor cells c)).map fun c => .refused (.notAmong c.name c.among)

/-- The columns in which no two rows may have the same cell, in the order in which that is looked at: those that `first` selects,
the key, and the others from the last one on. -/
def rivalries (l : Layout) (first : Column → Bool) : List Column :=
  let columns := l.columns.filter (·.isKey) ++ (l.columns.filter fun c => c.unique && !c.isKey).reverse
  columns.filter first ++ columns.filter (!first ·)

end Layout

namespace Row

/-- The cells of some columns of a row. -/
def record (r : Row) (columns : List Column) : Record := columns.map fun c => (c.name, r.get c)

/-- Whether a row has a cell in a column. A number is sought as a number in a column of numbers, and as a text in one of texts.
Null is had by no row. -/
def has (r : Row) (c : Column) (cell : Cell) : Bool :=
  Cell.same (r.get c) (cell.asKind c.kind.sought)

/-- Whether two rows have the same cell in a column. -/
def meets (r x : Row) (c : Column) : Bool := Cell.same (x.get c) (r.get c)

end Row

namespace Table

/-- The first of some columns in which a row repeats a cell and the other row does not give way. -/
def rival? (t : Table) (r : Row) (clause : Column → Clause) (columns : List Column) : Option Column :=
  columns.find? fun c => clause c ≠ .replace && t.rows.any (r.meets · c)

/-- Whether a row gives way to another one: they have the same number, or the same cell in a column that says so. -/
def givesWay (r : Row) (clause : Column → Clause) (columns : List Column) (x : Row) : Bool :=
  x.id = r.id || columns.any fun c => clause c = .replace && r.meets x c

/-- Put a row among the others, unless one is in its way. -/
def place (t : Table) (r : Row) (hr : r.Shaped t.layout) (clause : Column → Clause) (columns : List Column) : Except Stop Table :=
  match t.rival? r clause columns with
  | some c => .error (if clause c = .skip then .skipped else .refused (.twiceIn t.layout.spelling c.name))
  | none => .ok ((t.remove (givesWay r clause columns)).insert r hr (by
      intro x hx
      have hstays := (List.mem_filter.mp hx).2
      simp only [givesWay, Bool.not_or, Bool.and_eq_true, Bool.not_eq_true', decide_eq_false_iff_not] at hstays
      exact hstays.1))

end Table

namespace Database

/-- The faults of a statement on a table, which has to be there. -/
def faultsOn (db : Database) (table : String) (faults : Layout → List Fault) : List Fault :=
  match db.table? table with
  | none => [.noTable table]
  | some t => faults t.layout

/-- The faults of the references of some columns of a table. -/
def faultyReferences (db : Database) (l : Layout) (p : Column → Bool) : List Fault :=
  l.references.filterMap fun (c, parent) => if p c then db.referenceFault? l c parent else none

/-- The faults of the references to a table from some columns. -/
def faultyChildren (db : Database) (l : Layout) (p : Column → Bool) : List Fault :=
  if l.hasKey then []
  else ((db.children l.name).filter (p ·.2)).map fun (t, c) => .mismatch t.layout.spelling c.parentShown

/-- How many cells of some columns refer to one of some numbers of a table. -/
def referrers (db : Database) (p : Column → Bool) (parent : String) (ids : List Int) : Nat :=
  (((db.children parent).filter (p ·.2)).flatMap fun (t, c) => t.rows.filter fun r =>
    match (r.get c).asKind .key with
    | .int id => ids.contains id
    | _ => false).length

/-- How many of some references of a row lead nowhere. -/
def lost (db : Database) (references : List (Column × String)) (r : Row) : Nat :=
  (references.filter fun (c, parent) => !db.refers parent (r.get c)).length

end Database

/-- The references of a layout that are looked at by each statement. -/
def Layout.prompt (l : Layout) : List (Column × String) := l.references.filter (!·.1.deferred)

/-- The references of a layout that are looked at no sooner than at the end of a transaction. -/
def Layout.putOff (l : Layout) : List (Column × String) := l.references.filter (·.1.deferred)

/-- A count of references that lead nowhere once some were mended. Nothing is taken off a count of none. -/
def mend (owed : Int) (mended : Nat) : Int := if owed = 0 then 0 else owed - mended

/-! ## Adding -/

/-- A row to be added. -/
structure Insertion where
  table : String
  cells : List (String × Cell)
  /-- A column whose cells have to differ; a row that would repeat one is left out without a fault. -/
  unlessIn : Option String := none
  returning : List String := []
  deriving Repr

namespace Insertion

/-- Whether conflicts on a column can be ignored: its cells have to differ. -/
def isTarget (l : Layout) (name : String) : Bool := (l.column? name).any fun c => c.unique || c.isKey

/-- Whether the row can be left out for a column, whatever the column says. -/
def isUnless (s : Insertion) (c : Column) : Bool := s.unlessIn.any c.answersTo

/-- What becomes of the row if it repeats a cell of a column. -/
def clause (s : Insertion) (c : Column) : Clause := if s.isUnless c then .skip else c.onRepeat

/-- Whether rows can be mended or lost by the statement besides the one that it adds: it answers its row, or others may give way
to that. -/
def isWide (s : Insertion) (l : Layout) : Bool :=
  s.returning ≠ [] || (l.rivalries s.isUnless).any fun c => s.clause c = .replace && (!c.isKey || Layout.isGiven s.cells c)

/-- The faults that the layouts show. -/
def faults (s : Insertion) (g : Guard) (db : Database) : List Fault :=
  db.faultsOn s.table fun l =>
    (s.cells.filterMap fun (name, _) => if (l.column? name).isSome then none else some (.noColumnOf s.table name)) ++
    (match s.unlessIn with
      | some name => if isTarget l name then [] else [.noConflictTarget]
      | none => []) ++
    (if g.references then
      db.faultyReferences l (fun _ => true) ++ db.faultyChildren l (fun c => s.isWide l || c.deferred)
    else []) ++
    l.unknown s.returning

/-- The number of the new row: the one given for the key, or the table's next. -/
def number (s : Insertion) (t : Table) : Except Fault Int :=
  match t.layout.columns.find? (·.isKey) with
  | none => .ok t.nextId
  | some c => match Layout.cellFor s.cells c with
    | .null => .ok t.nextId
    | .int n => .ok n
    | _ => .error .badKey

/-- What stops the new row for its cells alone. -/
def cellStop? (s : Insertion) (g : Guard) (l : Layout) : Option Stop := l.stop? g s.cells (l.columns.filter (!·.isKey))

/-- The new row. -/
def row (s : Insertion) (l : Layout) (id : Int) : Row :=
  ⟨id, (l.columns.filter (!·.isKey)).map fun c => (c.name, Layout.cellFor s.cells c)⟩

theorem row_shaped (s : Insertion) (l : Layout) (id : Int) : (s.row l id).Shaped l := by
  simp [Row.Shaped, row, Layout.cellNames, Function.comp_def]

/-- Add the row to a table: the new row, and the table with it. -/
def addTo (s : Insertion) (g : Guard) (t : Table) : Except Stop (Row × Table) :=
  match s.number t with
  | .error f => .error (.refused f)
  | .ok id =>
    match s.cellStop? g t.layout with
    | some stop => .error stop
    | none =>
      (t.place (s.row t.layout id) (s.row_shaped ..) s.clause (t.layout.rivalries s.isUnless)).map (s.row t.layout id, ·)

/-- The rows that gave way, as numbers: they are in a table no more, and another row has not taken their number. -/
def gone (t new : Table) : List Int := (t.rows.map (·.id)).filter fun id => (new.row? id).isNone

/-- Run the statement: the new row, if it was not left out, and the database with it. A reference of the row that leads nowhere is a
fault, and so is one to a row that gave way; in a wide statement, though, cells that referred to the row's number before it was
there are set off against such references. -/
def run (s : Insertion) (g : Guard) (db : Database) : Except Fault (Option Record × Database) := do
  let t ← db.need s.table
  match s.addTo g t with
  | .error (.refused f) => .error f
  | .error .skipped => .ok (none, db)
  | .ok (r, new) =>
    let mended := if s.isWide t.layout then db.referrers (!·.deferred) s.table [r.id] else 0
    let db := db.put new
    let missed := db.referrers (!·.deferred) s.table (gone t new)
    if g.references && mended < missed + db.lost t.layout.prompt r then .error .dangling
    else .ok (some (r.record (t.layout.pick s.returning)), db)

/-- The count of references that are put off and lead nowhere, after the statement. -/
def owing (s : Insertion) (g : Guard) (db : Database) (owed : Int) : Int :=
  match db.table? s.table with
  | none => owed
  | some t => match s.addTo g t with
    | .error _ => owed
    | .ok (r, new) =>
      if g.references then
        mend (owed + (db.put new).referrers (·.deferred) s.table (gone t new) + (db.put new).lost t.layout.putOff r)
          (db.referrers (·.deferred) s.table [r.id])
      else owed

end Insertion

/-! ## Changing -/

/-- Cells to be given to all rows that have some cells. -/
structure Change where
  table : String
  cells : List (String × Cell)
  /-- The cells by which the rows are chosen; each has to be had. -/
  having : List (String × Cell)
  returning : List String := []
  deriving Repr

namespace Row

/-- Whether a row of a table has all of some cells. -/
def hasAll (r : Row) (l : Layout) (cells : List (String × Cell)) : Bool :=
  cells.all fun (name, cell) => (l.column? name).any (r.has · cell)

/-- The cell under a name once cells are given, where there was one before: the given cell if the column is one of those. -/
def assign (l : Layout) (cells : List (String × Cell)) (name : String) (old : Cell) : Cell :=
  match l.columns.find? (fun c => c.name = name && !c.isKey && Layout.isGiven cells c) with
  | none => old
  | some c => Layout.cellFor cells c

/-- A row with some cells given. -/
def given (r : Row) (l : Layout) (cells : List (String × Cell)) : Row := r.mapCells (assign l cells)

end Row

namespace Change

/-- Whether references can change: a cell is given for a column that refers to a table or that may be referred to. -/
def touchesReferences (s : Change) (l : Layout) : Bool :=
  l.columns.any fun c => Layout.isGiven s.cells c && (c.parent.isSome || c.isKey || c.answersTo "id")

/-- The faults that the layouts show. Only references of columns that change are looked at, and those to the table only if some
reference can change. -/
def faults (s : Change) (g : Guard) (db : Database) : List Fault :=
  db.faultsOn s.table fun l =>
    l.unknown (s.cells.map (·.1)) ++ l.unknown (s.having.map (·.1)) ++
    (if g.references then
      db.faultyReferences l (Layout.isGiven s.cells) ++ (if s.touchesReferences l then db.faultyChildren l (fun _ => true) else [])
    else []) ++
    l.unknown s.returning

/-- What stops a row for the cells alone that it is given. -/
def cellStop? (s : Change) (g : Guard) (l : Layout) : Option Stop :=
  l.stop? g s.cells (l.columns.filter fun c => !c.isKey && Layout.isGiven s.cells c)

/-- The columns in which a changed row may meet another one. -/
def rivalries (s : Change) (l : Layout) : List Column := (l.rivalries fun _ => false).filter (Layout.isGiven s.cells)

/-- The number of a row once it is changed. -/
def number (s : Change) (l : Layout) (r : Row) : Except Fault Int :=
  match l.columns.find? (fun c => c.isKey && Layout.isGiven s.cells c) with
  | none => .ok r.id
  | some c => match Layout.cellFor s.cells c with
    | .int id => .ok id
    | _ => .error .badKey

/-- Change one row of a table: the row as it is now, and the table with it. -/
def changeRow (s : Change) (g : Guard) (t : Table) (r : Row) (hr : r.Shaped t.layout) : Except Stop (Row × Table) :=
  match s.number t.layout r with
  | .error f => .error (.refused f)
  | .ok id =>
    match s.cellStop? g t.layout with
    | some stop => .error stop
    | none =>
      let new : Row := { r.given t.layout s.cells with id }
      ((t.remove (·.id = r.id)).place new (hr.mapCells _) (·.onRepeat) (s.rivalries t.layout)).map (new, ·)

/-- Change the row of a number, if it is still there, after some others were. -/
def changeNext (s : Change) (g : Guard) (done : List Row × Table) (id : Int) : Except Fault (List Row × Table) :=
  match hr : done.2.row? id with
  | none => .ok done
  | some r => match s.changeRow g done.2 r (done.2.shaped r (List.mem_of_find?_eq_some hr)) with
    | .error (.refused f) => .error f
    | .error .skipped => .ok done
    | .ok (new, t) => .ok (done.1 ++ [new], t)

/-- Change a table: the chosen rows as they are now, and the table with them. -/
def changeIn (s : Change) (g : Guard) (t : Table) : Except Fault (List Row × Table) :=
  ((t.rows.filter (·.hasAll t.layout s.having)).map (·.id)).foldlM (s.changeNext g) ([], t)

/-- The rows that a change leaves as they are. -/
def spared (s : Change) (t new : Table) : Table := t.remove fun r => r.hasAll t.layout s.having || (new.row? r.id).isNone

/-- Run the statement: the chosen rows as they are now, and the database with them. References that lead nowhere now are a fault:
those of the given cells, and those to numbers that were given up, less those to numbers that were taken. -/
def run (s : Change) (g : Guard) (db : Database) : Except Fault (List Record × Database) := do
  let t ← db.need s.table
  let (rows, new) ← s.changeIn g t
  let others := db.put (s.spared t new)
  let db := db.put new
  let given := t.layout.prompt.filter fun x => Layout.isGiven s.cells x.1
  let missed := others.referrers (!·.deferred) s.table (Insertion.gone t new)
  let mended := others.referrers (!·.deferred) s.table (Insertion.gone new t)
  if g.references && mended < missed + rows.foldl (fun n r => n + db.lost given r) 0 then .error .dangling
  else return (rows.map (·.record (t.layout.pick s.returning)), db)

/-- The count of references that are put off and lead nowhere, after the statement. -/
def owing (s : Change) (g : Guard) (db : Database) (owed : Int) : Int :=
  match db.table? s.table with
  | none => owed
  | some t => match s.changeIn g t with
    | .error _ => owed
    | .ok (rows, new) =>
      if g.references then
        let others := db.put (s.spared t new)
        let given := t.layout.putOff.filter fun x => Layout.isGiven s.cells x.1
        let old := (t.rows.filter (·.hasAll t.layout s.having)).foldl (fun n r => n + db.lost given r) 0
        mend (mend owed old + others.referrers (·.deferred) s.table (Insertion.gone t new) +
          (rows.foldl (fun n r => n + (db.put new).lost given r) 0 : Nat))
          (others.referrers (·.deferred) s.table (Insertion.gone new t))
      else owed

end Change

/-! ## Removing -/

/-- The rows that have some cells are to be removed. -/
structure Removal where
  table : String
  having : List (String × Cell)
  deriving Repr

namespace Removal

/-- The faults that the layouts show. -/
def faults (s : Removal) (g : Guard) (db : Database) : List Fault :=
  db.faultsOn s.table fun l =>
    l.unknown (s.having.map (·.1)) ++
    (if g.references then db.faultyReferences l (fun _ => true) ++ db.faultyChildren l (fun _ => true) else [])

/-- The rows to be removed, and the table without them. -/
def removeFrom (s : Removal) (t : Table) : List Row × Table :=
  (t.rows.filter (·.hasAll t.layout s.having), t.remove (·.hasAll t.layout s.having))

/-- Run the statement: the number of rows removed and the database without them. -/
def run (s : Removal) (g : Guard) (db : Database) : Except Fault (Nat × Database) := do
  let t ← db.need s.table
  let (removed, new) := s.removeFrom t
  let db := db.put new
  if g.references && 0 < db.referrers (!·.deferred) s.table (removed.map (·.id)) then .error .dangling
  else .ok (removed.length, db)

/-- The count of references that are put off and lead nowhere, after the statement. -/
def owing (s : Removal) (g : Guard) (db : Database) (owed : Int) : Int :=
  match db.table? s.table with
  | none => owed
  | some t =>
    let (removed, new) := s.removeFrom t
    if g.references then
      mend owed (removed.foldl (fun n r => n + db.lost t.layout.putOff r) 0) +
        (db.put new).referrers (·.deferred) s.table (removed.map (·.id))
    else owed

end Removal

/-! ## Finding -/

/-- The rows that have some cells are asked for. -/
structure Query where
  table : String
  columns : List String
  having : List (String × Cell)
  deriving Repr

namespace Query

/-- The faults that the layouts show. -/
def faults (s : Query) (db : Database) : List Fault :=
  db.faultsOn s.table fun l => l.unknown s.columns ++ l.unknown (s.having.map (·.1))

/-- The rows asked for, in the order of their numbers. -/
def run (s : Query) (db : Database) : Except Fault (List Record) := do
  match s.faults db with
  | f :: _ => .error f
  | [] =>
    let t ← db.need s.table
    .ok ((t.rows.filter (·.hasAll t.layout s.having)).map (·.record (t.layout.pick s.columns)))

end Query
end ReviewQueue
