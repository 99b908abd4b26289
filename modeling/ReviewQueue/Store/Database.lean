import ReviewQueue.Store.Fault
import ReviewQueue.Store.Table

/-!
# Databases

A database is tables and indexes. An index has no part in what a statement answers; it is kept because it can be listed and
because making one fails where its column is missing. Statements find a table under its name in lower case; only what is listed
of a database tells spellings apart. Views and triggers are left out.
-/

namespace ReviewQueue

/-- An index on a column of a table. -/
structure Index where
  name : String
  /-- The name of the table, in lower case. -/
  table : String
  column : String
  deriving DecidableEq, Repr, Inhabited

/-- Tables, in the order in which they were made, and indexes. -/
structure Database where
  tables : List Table
  indexes : List Index
  deriving DecidableEq, Repr

namespace Database

/-- The database without tables. -/
def empty : Database := ⟨[], []⟩

/-- The table of a name in lower case. -/
def table? (db : Database) (name : String) : Option Table := db.tables.find? (·.name = name)

/-- The table of a name, or the fault that there is none. -/
def need (db : Database) (name : String) : Except Fault Table :=
  match db.table? name with
  | none => .error (.noTable name)
  | some t => .ok t

/-- The database with a table in place of the one of the same name. -/
def put (db : Database) (t : Table) : Database :=
  { db with tables := db.tables.map fun u => if u.name = t.name then t else u }

/-- The database with one more table, unless there is one of that name. -/
def create (db : Database) (l : Layout) : Database :=
  if (db.table? l.name).isSome then db else { db with tables := db.tables ++ [.empty l] }

/-- The database without a table and its indexes. -/
def drop (db : Database) (name : String) : Database :=
  ⟨db.tables.filter (·.name ≠ name), db.indexes.filter (·.table ≠ name)⟩

/-- The table that is listed under a name in just this spelling. -/
def listed? (db : Database) (name : String) : Option Table := (db.table? name).filter (·.layout.spelling = name)

/-- A column whose reference to one name is a reference to another. -/
def retarget (source target : String) (c : Column) : Column :=
  if c.parentName = some source then { c with parent := some target } else c

/-- A layout once a table is renamed: its own name if it is that of the table, and references to it. -/
def relabel (source target : String) (h : IsLowerName target) (l : Layout) : Layout :=
  if l.name = source then ⟨target, l.columns.map (retarget source target), target, h⟩
  else { l with columns := l.columns.map (retarget source target) }

theorem cellNames_relabel (source target : String) (h : IsLowerName target) (l : Layout) :
    (relabel source target h l).cellNames = l.cellNames := by
  have hcolumns : (relabel source target h l).columns = l.columns.map (retarget source target) := by
    unfold relabel
    split <;> rfl
  have hkey : ∀ c : Column, (retarget source target c).isKey = c.isKey ∧ (retarget source target c).name = c.name := by
    intro c
    unfold retarget
    split <;> exact ⟨rfl, rfl⟩
  unfold Layout.cellNames
  rw [hcolumns, List.filter_map, List.map_map]
  simp only [Function.comp_def, hkey]

/-- The database with a table renamed; references to it and its indexes follow. -/
def rename (db : Database) (source target : String) (h : IsLowerName target := by decide) : Database where
  tables := db.tables.map fun t => t.withLayout (relabel source target h t.layout) (cellNames_relabel ..)
  indexes := db.indexes.map fun i => { i with table := if i.table = source then target else i.table }

/-- The database with one more index, unless there is one of that name. -/
def createIndex (db : Database) (i : Index) : Except Fault Database :=
  if db.indexes.any (·.name = i.name) then .ok db
  else do
    let t ← db.need i.table
    match t.layout.column? i.column with
    | none => .error (.noColumn i.column)
    | some _ => .ok { db with indexes := db.indexes ++ [i] }

/-- What a database consists of: kind, name and table of each index and table, by kind and name. -/
def listing (db : Database) : List (String × String × String) :=
  let byName := fun a b : String × String × String => decide (a.2.1 ≤ b.2.1)
  let shown := fun name => ((db.table? name).map (·.layout.spelling)).getD name
  (db.indexes.map fun i => ("index", i.name, shown i.table)).mergeSort byName ++
    (db.tables.map fun t => ("table", t.layout.spelling, t.layout.spelling)).mergeSort byName

/-! ## References -/

/-- What is wrong with a reference before any row is looked at: the table referred to is missing or has no key. -/
def referenceFault? (db : Database) (child : Layout) (c : Column) (parent : String) : Option Fault :=
  match db.table? parent with
  | none => some (.noTable ("main." ++ c.parentShown))
  | some t => if t.layout.hasKey then none else some (.mismatch child.spelling c.parentShown)

/-- Whether a cell of a referring column refers to a row, null referring to nothing. -/
def refers (db : Database) (parent : String) (cell : Cell) : Bool :=
  match cell.asKind .key with
  | .null => true
  | .int id => ((db.table? parent).bind (·.row? id)).isSome
  | _ => false

/-- The tables with a reference to a table, last one made first, each with the referring column. -/
def children (db : Database) (parent : String) : List (Table × Column) :=
  db.tables.reverse.flatMap fun t => (t.layout.references.filter (·.2 = parent)).map fun (c, _) => (t, c)

/-- A row that refers to nothing: its table, its number and the table it refers to. -/
structure Violation where
  table : String
  id : Int
  parent : String
  deriving DecidableEq, Repr

/-- A violation in words. -/
def Violation.message (v : Violation) : String := v.table ++ "[" ++ toString v.id ++ "] -> " ++ v.parent

/-- The violations of a table, row by row; none if no table is listed under its name. A missing table is referred to in vain by
every cell that is not null, one without a key is a fault. -/
def violations (db : Database) (name : String) : Except Fault (List Violation) :=
  match db.listed? name with
  | none => .ok []
  | some t =>
    match t.layout.references.find? (fun (_, parent) =>
        (db.table? parent).any (!·.layout.hasKey)) with
    | some (c, _) => .error (.mismatch name c.parentShown)
    | none => .ok (t.rows.flatMap fun r => (t.layout.references.filter fun (c, parent) =>
        !db.refers parent (r.get c)).map fun (c, _) => ⟨name, r.id, c.parentShown⟩)

end Database
end ReviewQueue
