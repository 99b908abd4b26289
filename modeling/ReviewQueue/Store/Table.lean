import ReviewQueue.Store.Cell

/-!
# Tables

A table has a layout and rows. Each row has a number, and the rows stand in ascending order of it, so a number names at most one
row. A key column shows the number; the other columns have cells of their own. A table is found under its name in any spelling.
-/

namespace ReviewQueue

/-- The letters of a name in lower case, letters other than ASCII kept. -/
def foldedName (name : String) : List Char := name.toList.map Char.toLower

/-- A name in lower case, which it shares with its other spellings. -/
def lowerName (name : String) : String := String.ofList (foldedName name)

/-- Whether a name is in lower case. -/
abbrev IsLowerName (name : String) : Prop := foldedName name = name.toList

/-- What becomes of a row that breaks a rule of a column. -/
inductive Clause where
  /-- The statement is refused, and what it did before is taken back. -/
  | refuse
  /-- The row is left out without a word. -/
  | skip
  /-- What is in the way gives way: other rows, or null to the default of the column. -/
  | replace
  deriving DecidableEq, Repr, Inhabited

/-- A column of a table. -/
structure Column where
  name : String
  kind : Cell.Kind
  /-- Whether a cell may not be null. -/
  required : Bool := false
  /-- What becomes of a row for which null is given though it may not be. -/
  onNull : Clause := .refuse
  /-- Whether no two rows have the same cell, null apart. -/
  unique : Bool := false
  /-- What becomes of a row that repeats a cell though it may not, the number of the row included. -/
  onRepeat : Clause := .refuse
  /-- What a row has that does not give a cell. -/
  default : Cell := .null
  /-- The table whose key the cells of this column refer to, in some spelling. -/
  parent : Option String := none
  /-- Whether that they lead to rows is looked at no sooner than at the end of a transaction. -/
  deferred : Bool := false
  /-- The only words the column may hold; no words, no restriction. -/
  among : List String := []
  deriving DecidableEq, Repr, Inhabited

namespace Column

/-- Whether a name in a statement means this column: case does not count. -/
def answersTo (c : Column) (name : String) : Bool := foldedName c.name = foldedName name

/-- The name under which the table is found that the column refers to. -/
def parentName (c : Column) : Option String := c.parent.map lowerName

/-- The name of that table as it is shown. -/
def parentShown (c : Column) : String := c.parent.getD ""

/-- Whether the column shows the number of the row. -/
def isKey (c : Column) : Bool := c.kind = .key

/-- What a row has in the column that does not give a cell. A key without one is for the table to number. -/
def fallback (c : Column) : Cell := if c.isKey then .null else c.default.asKind c.kind

/-- A cell on its way into the column, once null has given way to the default where it does. -/
def settle (c : Column) (cell : Cell) : Cell :=
  if cell = .null ∧ c.required = true ∧ c.onNull = .replace then c.fallback else cell

/-- An integer is kept by every column. -/
@[simp] theorem settle_int (c : Column) (n : Int) : c.settle (.int n) = .int n := if_neg fun h => by cases h.1

/-- So is a text. -/
@[simp] theorem settle_ofString (c : Column) (s : String) : c.settle (.ofString s) = .ofString s := if_neg fun h => by cases h.1

/-- Whether the words the column may hold admit a cell. Null is admitted everywhere. -/
def admits (c : Column) (cell : Cell) : Bool :=
  c.among = [] || cell = .null || c.among.any (fun word => cell = .ofString word)

end Column

/-- What a table is, apart from its rows. -/
structure Layout where
  /-- The name under which it is found, in lower case. -/
  name : String
  columns : List Column
  /-- The name as the statement spelled it that made the table. -/
  spelling : String := name
  spelled : foldedName spelling = name.toList := by decide
  deriving DecidableEq, Repr

namespace Layout

/-- The layout of a table whose name has some spelling. -/
def ofSpelling (spelling : String) (columns : List Column) : Layout where
  name := lowerName spelling
  columns := columns
  spelling := spelling
  spelled := (String.toList_ofList ..).symm

/-- The column a name means. -/
def column? (l : Layout) (name : String) : Option Column := l.columns.find? (·.answersTo name)

/-- Whether the column `id` is the key of the table, so that other tables can refer to it. -/
def hasKey (l : Layout) : Bool := l.columns.any (fun c => c.isKey && c.answersTo "id")

/-- The columns that refer to a table, last one first: the order in which references are checked. -/
def references (l : Layout) : List (Column × String) :=
  l.columns.reverse.filterMap fun c => c.parentName.map (c, ·)

/-- The names of the columns in which a row has cells of its own, in their order. -/
def cellNames (l : Layout) : List String := (l.columns.filter (!·.isKey)).map (·.name)

end Layout

/-- A row: its number and its cells by the names of their columns, the key left out. -/
structure Row where
  id : Int
  cells : List (String × Cell)
  deriving DecidableEq, Repr, Inhabited

namespace Row

/-- Whether a row has one cell for each column of a layout but the key, in their order. -/
abbrev Shaped (r : Row) (l : Layout) : Prop := r.cells.map (·.1) = l.cellNames

/-- The cell of a column. -/
def get (r : Row) (c : Column) : Cell := if c.isKey then .int r.id else (r.cells.lookup c.name).getD .null

/-- A row with other cells, each made from the one there was under its name. -/
def mapCells (f : String → Cell → Cell) (r : Row) : Row := { r with cells := r.cells.map fun x => (x.1, f x.1 x.2) }

@[simp] theorem id_mapCells (f : String → Cell → Cell) (r : Row) : (r.mapCells f).id = r.id := rfl

/-- Cells that are changed in their places keep the shape of a row. -/
theorem Shaped.mapCells {r : Row} {l : Layout} (h : r.Shaped l) (f : String → Cell → Cell) : (r.mapCells f).Shaped l := by
  rw [Shaped, ← h, Row.mapCells, List.map_map]
  rfl

end Row

/-- A table: its layout and its rows in the order of their numbers. -/
structure Table where
  layout : Layout
  rows : List Row
  ascending : rows.Pairwise (·.id < ·.id)
  shaped : ∀ r ∈ rows, r.Shaped layout
  deriving DecidableEq, Repr

namespace Table

/-- The name of a table. -/
abbrev name (t : Table) : String := t.layout.name

/-- A table without rows. -/
def empty (l : Layout) : Table := ⟨l, [], .nil, nofun⟩

@[simp] theorem layout_empty (l : Layout) : (empty l).layout = l := rfl

@[simp] theorem rows_empty (l : Layout) : (empty l).rows = [] := rfl

/-- The row of a number. -/
def row? (t : Table) (id : Int) : Option Row := t.rows.find? (·.id = id)

/-- The cells of a column, one per row. -/
def cells (t : Table) (c : Column) : List Cell := t.rows.map (·.get c)

/-! ## Adding a row -/

/-- Rows with one more, before the first that has a greater number. -/
def insertRow (r : Row) : List Row → List Row
  | [] => [r]
  | x :: rows => if r.id < x.id then r :: x :: rows else x :: insertRow r rows

/-- A row that is put in order is added to the others. -/
theorem mem_insertRow {r x : Row} {rows : List Row} : x ∈ insertRow r rows ↔ x = r ∨ x ∈ rows := by
  induction rows with
  | nil => simp [insertRow]
  | cons y rows ih =>
    rw [insertRow]
    split
    · simp
    · simp only [List.mem_cons, ih]
      exact or_left_comm

/-- Where its number is free the numbers ascend still. -/
theorem insertRow_ascending {r : Row} {rows : List Row} (h : rows.Pairwise (·.id < ·.id)) (hr : ∀ x ∈ rows, x.id ≠ r.id) :
    (insertRow r rows).Pairwise (·.id < ·.id) := by
  induction rows with
  | nil => simp [insertRow]
  | cons y rows ih =>
    obtain ⟨hy, hrows⟩ := List.pairwise_cons.mp h
    have hne := hr y (by simp)
    rw [insertRow]
    split
    next hlt =>
      refine List.pairwise_cons.mpr ⟨fun x hx => ?_, h⟩
      rcases List.mem_cons.mp hx with rfl | hx
      · exact hlt
      · exact Int.lt_trans hlt (hy x hx)
    next hlt =>
      refine List.pairwise_cons.mpr ⟨fun x hx => ?_, ih hrows fun x hx => hr x (by simp [hx])⟩
      rcases mem_insertRow.mp hx with rfl | hx
      · omega
      · exact hy x hx

/-- The table with one more row of its shape, under a number that is free. -/
def insert (t : Table) (r : Row) (hr : r.Shaped t.layout) (hid : ∀ x ∈ t.rows, x.id ≠ r.id) : Table :=
  ⟨t.layout, insertRow r t.rows, insertRow_ascending t.ascending hid, fun x hx => by
    rcases mem_insertRow.mp hx with rfl | hx
    · exact hr
    · exact t.shaped x hx⟩

@[simp] theorem layout_insert (t : Table) {r : Row} (hr : r.Shaped t.layout) (hid : ∀ x ∈ t.rows, x.id ≠ r.id) :
    (t.insert r hr hid).layout = t.layout := rfl

@[simp] theorem rows_insert (t : Table) {r : Row} (hr : r.Shaped t.layout) (hid : ∀ x ∈ t.rows, x.id ≠ r.id) :
    (t.insert r hr hid).rows = insertRow r t.rows := rfl

/-- The table with one more row of its shape, if its number is free. -/
def insert? (t : Table) (r : Row) (hr : r.Shaped t.layout) : Option Table :=
  if h : ∀ x ∈ t.rows, x.id ≠ r.id then some (t.insert r hr h) else none

/-- The greatest number that a row can have. -/
def lastId : Int := Int64.maxValue.toInt

/-- The number a new row gets: one more than the last row's, 1 in an empty table. After the greatest number it is the first free
one above 0. -/
def nextId (t : Table) : Int :=
  match t.rows.getLast? with
  | none => 1
  | some r =>
    if r.id < lastId then r.id + 1
    else (((List.range (t.rows.length + 1)).map fun (k : Nat) => (k : Int) + 1).find? fun n => t.rows.all (·.id ≠ n)).getD 1

/-! ## Changing and removing rows -/

/-- The table with the cells changed of each row that `p` selects; numbers and names stay. -/
def modify (t : Table) (p : Row → Bool) (f : String → Cell → Cell) : Table :=
  ⟨t.layout, t.rows.map (fun r => if p r then r.mapCells f else r), by
    refine List.pairwise_map.mpr (t.ascending.imp fun {a b} h => ?_)
    split <;> split <;> exact h, fun x hx => by
    obtain ⟨r, hr, rfl⟩ := List.mem_map.mp hx
    split
    · exact (t.shaped r hr).mapCells f
    · exact t.shaped r hr⟩

@[simp] theorem layout_modify (t : Table) (p : Row → Bool) (f : String → Cell → Cell) : (t.modify p f).layout = t.layout := rfl

@[simp] theorem rows_modify (t : Table) (p : Row → Bool) (f : String → Cell → Cell) :
    (t.modify p f).rows = t.rows.map fun r => if p r then r.mapCells f else r := rfl

/-- The table without the rows that `p` selects. -/
def remove (t : Table) (p : Row → Bool) : Table :=
  ⟨t.layout, t.rows.filter (!p ·), t.ascending.filter _, fun r hr => t.shaped r (List.mem_filter.mp hr).1⟩

@[simp] theorem layout_remove (t : Table) (p : Row → Bool) : (t.remove p).layout = t.layout := rfl

@[simp] theorem rows_remove (t : Table) (p : Row → Bool) : (t.remove p).rows = t.rows.filter (!p ·) := rfl

/-- The table under another layout for rows of the same shape. -/
def withLayout (t : Table) (l : Layout) (h : l.cellNames = t.layout.cellNames) : Table :=
  ⟨l, t.rows, t.ascending, fun r hr => (t.shaped r hr).trans h.symm⟩

@[simp] theorem layout_withLayout (t : Table) {l : Layout} (h : l.cellNames = t.layout.cellNames) :
    (t.withLayout l h).layout = l := rfl

@[simp] theorem rows_withLayout (t : Table) {l : Layout} (h : l.cellNames = t.layout.cellNames) :
    (t.withLayout l h).rows = t.rows := rfl

end Table
end ReviewQueue
