import ReviewQueue.Proofs.Store.Insertions

/-!
# One row at a time

Most statements of a store are about one row: it is added, or it is given other cells. What is left then is said exactly:
in one table the one row came in, or took the place of the one that was there, and everything else is as it was, but that rows
may have given way where the layout says so. A row that is given cells differs from what it was in these alone.
-/

namespace ReviewQueue

namespace Column

/-- A name means a column of that name. -/
@[simp] theorem answersTo_name (c : Column) : c.answersTo c.name = true := by simp [answersTo]

end Column

namespace Layout

/-- Whether no name means two columns. -/
def foldedDistinct (l : Layout) : Bool := (l.columns.map fun c => foldedName c.name).Nodup

/-- Columns of names that differ in more than case are different ones. -/
theorem foldedDistinct_inj {l : Layout} (h : l.foldedDistinct = true) {c c' : Column} (hc : c ∈ l.columns)
    (hc' : c' ∈ l.columns) (hn : c.answersTo c'.name = true) : c = c' :=
  List.inj_on_of_nodup_map (of_decide_eq_true h) hc hc' (of_decide_eq_true hn)

/-- Whether a cell can be given as it is under a name: the name is that of a column other than the key, spelt as the
column is, and the cell is of the column's kind. -/
def Takes (l : Layout) (x : String × Cell) : Prop :=
  ∃ c ∈ l.columns, c.name = x.1 ∧ c.isKey = false ∧ x.2.asKind c.kind = x.2

/-- A text or null can be given as it is to a column of texts. -/
theorem takes_text {l : Layout} {name : String} (hname : (l.columns.any fun c => c.name = name && c.kind = .text) = true)
    {x : Cell} (hx : x.asKind .text = x) : l.Takes (name, x) := by
  obtain ⟨c, hc, h⟩ := List.any_eq_true.mp hname
  simp only [Bool.and_eq_true, decide_eq_true_eq] at h
  obtain ⟨hcname, hkind⟩ := h
  refine ⟨c, hc, hcname, ?_, ?_⟩
  · simp [Column.isKey, hkind]
  · rw [hkind]
    exact hx

end Layout

/-! ## Cells in place of others -/

namespace Row

/-- A row with some cells in place of those that it has under their names. -/
def put (r : Row) (cells : List (String × Cell)) : Row :=
  { r with cells := r.cells.map fun x => (x.1, (cells.lookup x.1).getD x.2) }

variable {r : Row} {cells : List (String × Cell)} {name : String}

/-- A cell that is put is found under its name if the row has one there. -/
theorem lookup_put (r : Row) (cells : List (String × Cell)) (name : String) :
    (r.put cells).cells.lookup name = (r.cells.lookup name).map (cells.lookup name).getD := by
  unfold put
  simp only
  induction r.cells with
  | nil => rfl
  | cons x old ih =>
    rw [List.map_cons, List.lookup_cons, List.lookup_cons, ih]
    by_cases hn : name = x.1
    · subst hn
      simp
    · have hne : (name == x.1) = false := by simp [hn]
      rw [hne]

/-- A row has the cell that it had where none was put. -/
theorem cell_put_of_none (r : Row) (hx : cells.lookup name = none) : (r.put cells).cell name = r.cell name := by
  unfold cell
  rw [lookup_put, hx]
  cases r.cells.lookup name <;> rfl

/-- The cell under a name is that of the first entry of the name. -/
theorem lookup_eq_map_find? (cells : List (String × Cell)) (name : String) :
    cells.lookup name = (cells.find? fun x => name == x.1).map (·.2) := by
  induction cells with
  | nil => rfl
  | cons x cells ih =>
    rw [List.lookup_cons, List.find?_cons, ih]
    cases name == x.1 <;> rfl

/-- The entries for a column are those of its name, and the first of them has the cell that is given. -/
theorem cellFor_eq_of_takes {l : Layout} (hl : l.foldedDistinct = true) (hs : l.isStrict = true)
    (hcells : ∀ x ∈ cells, l.Takes x) {c : Column} (hc : c ∈ l.columns) : Layout.isGiven cells c = (cells.lookup c.name).isSome ∧
      ∀ x, cells.lookup c.name = some x → Layout.cellFor cells c = x := by
  have hmeans : ∀ x ∈ cells, c.answersTo x.1 = (c.name == x.1) := by
    intro x hx
    obtain ⟨c', hc', hname, -⟩ := hcells x hx
    rw [Bool.eq_iff_iff, beq_iff_eq, ← hname]
    refine ⟨fun h => by rw [Layout.foldedDistinct_inj hl hc hc' h], fun h => ?_⟩
    rw [← h]
    exact c.answersTo_name
  have hlookup : cells.lookup c.name = (cells.find? (c.answersTo ·.1)).map (·.2) := by
    rw [lookup_eq_map_find?, ← List.head?_filter, ← List.head?_filter, List.filter_congr hmeans]
  refine ⟨?_, fun x hx => ?_⟩
  · rw [hlookup, Option.isSome_map, Bool.eq_iff_iff, List.find?_isSome]
    exact List.any_eq_true
  · obtain ⟨entry, hentry, rfl⟩ := Option.map_eq_some_iff.mp (hlookup.symm.trans hx)
    have hmeant := List.find?_some hentry
    obtain ⟨c', hc', hname, -, hkind⟩ := hcells entry (List.mem_of_find?_eq_some hentry)
    rw [← hname] at hmeant
    have hnull : c.onNull ≠ .replace := by
      rw [(Layout.strict_column hs hc).1]
      exact Clause.noConfusion
    rw [Layout.cellFor, Layout.settle_eq hnull, hentry, Option.map_some, Option.getD_some,
      Layout.foldedDistinct_inj hl hc hc' hmeant, hkind]

/-- Cells that are given as they are take the place of those that were there, and no others do. -/
theorem given_eq_put {l : Layout} (hl : l.foldedDistinct = true) (hs : l.isStrict = true) (hcells : ∀ x ∈ cells, l.Takes x)
    (r : Row) : r.given l cells = r.put cells := by
  have hassign : ∀ (name : String) (old : Cell), assign l cells name old = (cells.lookup name).getD old := by
    intro name old
    unfold assign
    cases hfind : l.columns.find? (fun c => c.name = name && !c.isKey && Layout.isGiven cells c) with
    | none =>
      cases hx : cells.lookup name with
      | none => rfl
      | some x =>
        obtain ⟨entry, hentry, hsame⟩ := List.lookup_isSome_iff.mp (Option.isSome_of_eq_some hx)
        obtain ⟨c, hc, hname, hk, -⟩ := hcells entry hentry
        obtain rfl : name = c.name := (beq_iff_eq.mp hsame).trans hname.symm
        have hgiven := (cellFor_eq_of_takes hl hs hcells hc).1
        rw [hx] at hgiven
        exact absurd (by simp [hk, hgiven]) (List.find?_eq_none.mp hfind c hc)
    | some c =>
      have hfound := List.find?_some hfind
      simp only [Bool.and_eq_true, decide_eq_true_eq] at hfound
      obtain ⟨⟨rfl, -⟩, hgiven⟩ := hfound
      obtain ⟨hisGiven, hcellFor⟩ := cellFor_eq_of_takes hl hs hcells (List.mem_of_find?_eq_some hfind)
      obtain ⟨x, hx⟩ := Option.isSome_iff_exists.mp (hisGiven.symm.trans hgiven)
      rw [hx]
      exact hcellFor x hx
  unfold given mapCells put
  simp only [hassign]

end Row

/-! ## Rows in place of others -/

/-- In one table some rows that stand one after the other gave way to others, and all else is as it was. With no rows to
give way, rows were added. -/
structure Database.Splices (db db' : Database) (name : String) (old new : List Row) : Prop where
  layout : (db'.table? name).map (·.layout) = (db.table? name).map (·.layout)
  rows : ∃ as bs, db.rows name = as ++ old ++ bs ∧ db'.rows name = as ++ new ++ bs
  others : ∀ other, other ≠ name → db'.table? other = db.table? other
  indexes : db'.indexes = db.indexes

/-- There are as many rows more as came in, less those that gave way. -/
theorem Database.Splices.length_rows {db db' : Database} {name : String} {old new : List Row} (h : db.Splices db' name old new) :
    (db'.rows name).length + old.length = (db.rows name).length + new.length := by
  obtain ⟨as, bs, hbefore, hafter⟩ := h.rows
  rw [hbefore, hafter]
  simp only [List.length_append]
  omega

namespace Table

/-- A row is added at one place, and the rows before it and after it stay. -/
theorem exists_insertRow_eq (r : Row) (rows : List Row) : ∃ as bs, rows = as ++ bs ∧ insertRow r rows = as ++ [r] ++ bs := by
  induction rows with
  | nil => exact ⟨[], [], rfl, rfl⟩
  | cons x rows ih =>
    rw [insertRow]
    split
    · exact ⟨[], x :: rows, rfl, rfl⟩
    · obtain ⟨as, bs, hrows, hinsert⟩ := ih
      exact ⟨x :: as, bs, congrArg (x :: ·) hrows, congrArg (x :: ·) hinsert⟩

/-- Where one row takes the place of another, the rows before it and after it stay. -/
theorem exists_replace_eq (t : Table) {r : Row} (hr : r ∈ t.rows) (x : Row) :
    ∃ as bs, t.rows = as ++ [r] ++ bs ∧ (t.rows.map fun y => if y.id = r.id then x else y) = as ++ [x] ++ bs := by
  obtain ⟨as, bs, hrows⟩ := List.append_of_mem hr
  have hids := t.nodup_ids
  rw [hrows, List.map_append, List.map_cons, List.nodup_append, List.nodup_cons] at hids
  obtain ⟨-, ⟨hbs, -⟩, has⟩ := hids
  have hsame : ∀ ys : List Row, (∀ y ∈ ys, y.id ≠ r.id) → (ys.map fun y => if y.id = r.id then x else y) = ys := by
    intro ys hys
    conv => rhs; rw [← List.map_id ys]
    exact List.map_congr_left fun y hy => if_neg (hys y hy)
  refine ⟨as, bs, by rw [hrows, List.append_assoc]; rfl, ?_⟩
  rw [hrows, List.map_append, List.map_cons, if_pos rfl,
    hsame as fun y hy => has y.id (List.mem_map_of_mem hy) r.id (by simp),
    hsame bs fun y hy h => hbs (h ▸ List.mem_map_of_mem hy), List.append_assoc]
  rfl

end Table

variable {db db' : Database} {name : String} {p : Row → Bool}

/-! ## Rows that gave way -/

namespace Database

/-- The database without the rows of a table that `p` selects. -/
def without (db : Database) (name : String) (p : Row → Bool) : Database :=
  { db with tables := db.tables.map fun t => if t.name = name then t.remove p else t }

/-- Rows are taken from the table of the name alone. -/
theorem table?_without (db : Database) (name : String) (p : Row → Bool) (other : String) :
    (db.without name p).table? other = (db.table? other).map fun t => if t.name = name then t.remove p else t := by
  unfold without table?
  rw [List.find?_map]
  congr 2
  funext t
  simp only [Function.comp_apply]
  split <;> rfl

theorem table?_without_self {t : Table} (ht : db.table? name = some t) (p : Row → Bool) :
    (db.without name p).table? name = some (t.remove p) := by
  rw [table?_without, ht, Option.map_some, if_pos (name_of_table? ht)]

theorem table?_without_of_ne {other : String} (h : other ≠ name) : (db.without name p).table? other = db.table? other := by
  rw [table?_without]
  cases ht : db.table? other with
  | none => rfl
  | some t => rw [Option.map_some, name_of_table? ht, if_neg h]

/-- Where no row gave way, what is left of a database is that database. -/
theorem Splices.of_without {old new : List Row} (h : (db.without name p).Splices db' name old new)
    (hp : ∀ r ∈ db.rows name, p r = false) : db.Splices db' name old new := by
  have hsame : (db.without name p).table? name = db.table? name := by
    cases ht : db.table? name with
    | none => rw [table?_without, ht, Option.map_none]
    | some t =>
      rw [rows_of_table? ht] at hp
      rw [table?_without_self ht]
      exact congrArg some (Table.ext rfl (List.filter_eq_self.mpr fun r hr => by rw [hp r hr]; rfl))
  refine ⟨?_, ?_, fun other hne => (h.others other hne).trans (table?_without_of_ne hne), h.indexes⟩
  · rw [← hsame]
    exact h.layout
  · rw [← rows_congr hsame]
    exact h.rows

end Database

/-- Whether a row gives way to another one by a rule of the layout: they have the same cell in a column that says so. -/
def Layout.yields (l : Layout) (r x : Row) : Bool :=
  l.columns.any fun c => (c.isKey || c.unique) && c.onRepeat = .replace && r.meets x c

/-- In a layout of which no column says so, no row gives way. -/
theorem Layout.yields_eq_false {l : Layout} (hl : ∀ c ∈ l.columns, c.onRepeat ≠ .replace) (r x : Row) :
    l.yields r x = false := by
  unfold yields
  rw [List.any_eq_false]
  intro c hc
  simp [hl c hc]

/-! ## Changes of one row -/

namespace Change

variable {s : Change} {g : Guard} {t new : Table} {r : Row} {rows : List Row} {records : List Record}

/-- A change that takes one row gives it its cells in its place. -/
theorem Takes.splices (h : s.Takes db t r db') : db.Splices db' s.table [r] [r.given t.layout s.cells] := by
  have hafter : db'.table? s.table = some (s.inPlace t).2 := h.toGives.table?_self
  obtain ⟨as, bs, hrows⟩ := List.append_of_mem h.mem
  refine ⟨?_, ⟨as, bs, ?_, ?_⟩, fun other => h.toGives.table?_of_ne, ?_⟩
  · rw [hafter, h.table]
    rfl
  · rw [Database.rows_of_table? h.table, hrows, List.append_assoc]
    rfl
  · rw [Database.rows_of_table? hafter, h.rows_append hrows, List.append_assoc]
    rfl
  · rw [h.database]
    rfl

/-- A change of one row that gives no cell to the key gives the row its cells where it stands, in any layout. Others may give way
to it. -/
theorem exists_of_changeRow {x : Row} {hr : r.Shaped t.layout} (hmem : r ∈ t.rows)
    (hkey : ∀ c ∈ t.layout.columns, c.isKey = true → Layout.isGiven s.cells c = false)
    (h : s.changeRow g t r hr = .ok (x, new)) : x = r.given t.layout s.cells ∧ new.layout = t.layout ∧
      ∃ p : Row → Bool, (∀ y, p y = true → y.id ≠ r.id ∧ t.layout.yields x y = true) ∧ r ∈ (t.remove p).rows ∧
        new.rows = (t.remove p).rows.map fun y => if y.id = r.id then x else y := by
  have hnumber : s.number t.layout r = .ok r.id := by
    unfold number
    rw [List.find?_eq_none.mpr fun c hc => by
      rw [Bool.and_eq_true]
      rintro ⟨hk, hg⟩
      rw [hkey c hc hk] at hg
      cases hg]
  unfold changeRow at h
  simp only [hnumber] at h
  split at h
  · cases h
  cases hplace : (t.remove (·.id = r.id)).place (r.given t.layout s.cells) (hr.mapCells _) (·.onRepeat)
      (s.rivalries t.layout) with
  | error stop =>
    have herror := congrArg (Except.map (r.given t.layout s.cells, ·)) hplace
    cases herror.symm.trans h
  | ok u =>
    cases (congrArg (Except.map (r.given t.layout s.cells, ·)) hplace).symm.trans h
    obtain ⟨-, hlayout, hrows⟩ := Table.place_eq_ok hplace
    let p : Row → Bool := fun y => y.id ≠ r.id && Table.givesWay (r.given t.layout s.cells) (·.onRepeat) (s.rivalries t.layout) y
    have hstays : r ∈ (t.remove p).rows := List.mem_filter.mpr ⟨hmem, by simp [p]⟩
    refine ⟨rfl, hlayout, p, fun y hy => ?_, hstays, ?_⟩
    · simp only [p, Table.givesWay, Bool.and_eq_true, Bool.or_eq_true, decide_eq_true_eq, Row.given_id, List.any_eq_true] at hy
      obtain ⟨hne, hid | ⟨c, hc, hclause, hmeets⟩⟩ := hy
      · exact absurd (of_decide_eq_true hid) hne
      · obtain ⟨hmem, hor⟩ := Layout.mem_rivalries.mp (List.mem_filter.mp hc).1
        exact ⟨hne, List.any_eq_true.mpr ⟨c, hmem, by simp [hor, hclause, hmeets]⟩⟩
    · rw [hrows, ← Table.insertRow_filter (Row.given_id ..) (t.remove p).ascending hstays]
      refine congrArg (Table.insertRow _) ?_
      rw [Table.rows_remove, Table.rows_remove, List.filter_filter, List.filter_filter]
      refine List.filter_congr fun y _ => ?_
      by_cases hid : y.id = r.id <;> simp [p, hid]

/-- A change that ran changed its table, and answers as many rows as were changed. -/
theorem exists_changeIn_of_run (ht : db.table? s.table = some t) (h : s.run g db = .ok (records, db')) :
    ∃ rows new, s.changeIn g t = .ok (rows, new) ∧ rows.length = records.length ∧ db' = db.put new := by
  unfold run at h
  rw [Database.need_eq_ok.mpr ht] at h
  simp only [bind, Except.bind] at h
  cases hchange : s.changeIn g t with
  | error f =>
    rw [hchange] at h
    cases h
  | ok v =>
    rw [hchange] at h
    simp only [pure, Except.pure] at h
    split at h
    · cases h
    · cases h
      exact ⟨v.1, v.2, rfl, (List.length_map _).symm, rfl⟩

/-- A change that chooses no rows but one of some number chooses one at most. -/
theorem chosen_cases {id : Int} (hchosen : ∀ x ∈ t.rows, x.hasAll t.layout s.having = true → x.id = id) :
    t.rows.filter (·.hasAll t.layout s.having) = [] ∨
      ∃ r ∈ t.rows, r.hasAll t.layout s.having = true ∧ t.rows.filter (·.hasAll t.layout s.having) = [r] := by
  cases hrows : t.rows.filter (·.hasAll t.layout s.having) with
  | nil => exact Or.inl rfl
  | cons r more =>
    have hid : ∀ x ∈ r :: more, x ∈ t.rows ∧ x.hasAll t.layout s.having = true ∧ x.id = id := by
      intro x hx
      rw [← hrows] at hx
      obtain ⟨hmem, hall⟩ := List.mem_filter.mp hx
      exact ⟨hmem, hall, hchosen x hmem hall⟩
    have hasc := t.ascending.filter (·.hasAll t.layout s.having)
    rw [hrows] at hasc
    obtain ⟨hr, hall, hrid⟩ := hid r List.mem_cons_self
    have hnone : more = [] := by
      refine List.eq_nil_iff_forall_not_mem.mpr fun x hx => ?_
      have hlt := (List.pairwise_cons.mp hasc).1 x hx
      have hxid := (hid x (List.mem_cons_of_mem _ hx)).2.2
      omega
    exact Or.inr ⟨r, hr, hall, by rw [hnone]⟩

/-- A change that chooses one row and answers one changed that one. -/
theorem exists_changeRow_of_changeIn (hr : r ∈ t.rows) (hrows : t.rows.filter (·.hasAll t.layout s.having) = [r])
    (h : s.changeIn g t = .ok (rows, new)) (hone : rows.length = 1) :
    ∃ (x : Row) (hshaped : r.Shaped t.layout), s.changeRow g t r hshaped = .ok (x, new) := by
  unfold changeIn at h
  rw [hrows, List.map_cons, List.map_nil, List.foldlM_cons] at h
  have hnext : s.changeNext g ([], t) r.id = .ok (rows, new) := by
    cases hfirst : s.changeNext g ([], t) r.id with
    | error f => rw [hfirst] at h; cases h
    | ok v => rw [hfirst] at h; exact h
  unfold changeNext at hnext
  split at hnext
  next hmissing =>
    rw [Table.row?_eq_some hr] at hmissing
    cases hmissing
  next x hx =>
    rw [Table.row?_eq_some hr] at hx
    cases hx
    split at hnext
    · cases hnext
    · cases hnext
      cases hone
    next hrow =>
      cases hnext
      exact ⟨_, _, hrow⟩

/-- A row that is given its cells stands where it stood, and others may have given way to it. -/
theorem splices_of_changeRow {x : Row} {hshaped : r.Shaped t.layout} (ht : db.table? s.table = some t) (hr : r ∈ t.rows)
    (hkey : ∀ c ∈ t.layout.columns, c.isKey = true → Layout.isGiven s.cells c = false)
    (h : s.changeRow g t r hshaped = .ok (x, new)) :
    ∃ p : Row → Bool, (∀ y, p y = true → y.id ≠ r.id ∧ t.layout.yields (r.given t.layout s.cells) y = true) ∧
      (db.without s.table p).Splices (db.put new) s.table [r] [r.given t.layout s.cells] := by
  obtain ⟨rfl, hlayout, p, hp, hstays, hafter⟩ := exists_of_changeRow hr hkey h
  obtain ⟨as, bs, hbefore, hplaced⟩ := (t.remove p).exists_replace_eq hstays (r.given t.layout s.cells)
  have hname : new.name = s.table := (congrArg Layout.name hlayout).trans (Database.name_of_table? ht)
  have hput : (db.put new).table? s.table = some new := by
    rw [← hname]
    exact Database.table?_put_self (u := t) (by rw [hname]; exact ht)
  refine ⟨p, hp, ?_, ⟨as, bs, ?_, ?_⟩, fun other hne => ?_, rfl⟩
  · rw [hput, Database.table?_without_self ht, Option.map_some, Option.map_some, hlayout]
    rfl
  · rw [Database.rows_of_table? (Database.table?_without_self ht p), hbefore]
  · rw [Database.rows_of_table? hput, hafter, hplaced]
  · rw [Database.table?_without_of_ne hne, Database.table?_put_of_ne (by rw [hname]; exact hne)]

/-- A change that gives no cell to the key, and chooses no rows but one of some number, gives that row its cells where it stands if
it answers one row, in any layout. Others may give way to it. -/
theorem splices_of_run (ht : db.table? s.table = some t)
    (hkey : ∀ c ∈ t.layout.columns, c.isKey = true → Layout.isGiven s.cells c = false) {id : Int}
    (hchosen : ∀ x ∈ t.rows, x.hasAll t.layout s.having = true → x.id = id)
    (h : s.run g db = .ok (records, db')) (hone : records.length = 1) :
    ∃ r ∈ t.rows, r.hasAll t.layout s.having = true ∧ ∃ p : Row → Bool,
      (∀ y, p y = true → y.id ≠ r.id ∧ t.layout.yields (r.given t.layout s.cells) y = true) ∧
      (db.without s.table p).Splices db' s.table [r] [r.given t.layout s.cells] := by
  obtain ⟨rows, new, hchange, hlength, rfl⟩ := exists_changeIn_of_run ht h
  rcases chosen_cases hchosen with hnone | ⟨r, hr, hall, hrows⟩
  · unfold changeIn at hchange
    rw [hnone] at hchange
    cases hchange
    cases hlength.trans hone
  · obtain ⟨x, hshaped, hrow⟩ := exists_changeRow_of_changeIn hr hrows hchange (hlength.trans hone)
    exact ⟨r, hr, hall, splices_of_changeRow ht hr hkey hrow⟩

end Change

/-! ## Rows that are added -/

namespace Insertion.Adds

variable {s : Insertion} {g : Guard} {t new : Table} {id : Int}

/-- An insertion that adds its row puts it among those that were there and did not give way. -/
theorem splices_without (h : s.Adds g db t new id db') :
    (db.without s.table (Table.givesWay (s.row t.layout id) s.clause (t.layout.rivalries s.isUnless))).Splices db' s.table []
      [s.row t.layout id] := by
  obtain ⟨-, hlayout, hrows⟩ := Table.place_eq_ok h.placed
  obtain ⟨as, bs, hbefore, hinsert⟩ := Table.exists_insertRow_eq (s.row t.layout id)
    (t.rows.filter (!Table.givesWay (s.row t.layout id) s.clause (t.layout.rivalries s.isUnless) ·))
  refine ⟨?_, ⟨as, bs, ?_, ?_⟩, fun other hne => (h.table?_of_ne hne).trans (Database.table?_without_of_ne hne).symm, ?_⟩
  · rw [h.table?_self, Database.table?_without_self h.table, Option.map_some, Option.map_some, hlayout]
    rfl
  · rw [Database.rows_of_table? (Database.table?_without_self h.table _), List.append_nil]
    exact hbefore
  · rw [Database.rows_of_table? h.table?_self, hrows, hinsert]
  · rw [h.database]
    rfl

/-- An insertion that never leaves its row out has rows give way for a rule of the layout alone. -/
theorem yields_of_givesWay (h : s.Adds g db t new id db') (hunless : s.unlessIn = none) {x : Row} (hx : x ∈ t.rows)
    (hgives : Table.givesWay (s.row t.layout id) s.clause (t.layout.rivalries s.isUnless) x = true) :
    t.layout.yields (s.row t.layout id) x = true := by
  have hclause : ∀ c, s.clause c = c.onRepeat := fun c => by simp [clause, isUnless, hunless]
  unfold Table.givesWay at hgives
  simp only [Bool.or_eq_true, decide_eq_true_eq, List.any_eq_true, Bool.and_eq_true, hclause] at hgives
  obtain ⟨c, hc, hreplace, hmeets⟩ : ∃ c ∈ t.layout.rivalries s.isUnless,
      c.onRepeat = .replace ∧ (s.row t.layout id).meets x c = true := by
    refine hgives.elim (fun hid => ?_) fun hreplaced => hreplaced
    -- a number that is taken was given for the key, which says that the row there gives way
    rcases number_eq_ok h.number with hnext | ⟨c, hc, hk⟩
    · exact absurd (hid.trans hnext) (t.nextId_free x hx)
    · have hmem : c ∈ t.layout.rivalries s.isUnless := Layout.mem_rivalries.mpr ⟨hc, Or.inl hk⟩
      have hmeets : (s.row t.layout id).meets x c = true := by
        unfold Row.meets
        rw [Row.get_of_isKey _ hk, Row.get_of_isKey _ hk, hid]
        exact Cell.same_self Cell.noConfusion
      refine ⟨c, hmem, ?_, hmeets⟩
      by_contra hnot
      have hrival := List.find?_eq_none.mp h.differs c hmem
      simp only [hclause, hnot, ne_eq, not_false_eq_true, decide_true, Bool.true_and] at hrival
      exact hrival (List.any_eq_true.mpr ⟨x, hx, hmeets⟩)
  obtain ⟨hmem, hor⟩ := Layout.mem_rivalries.mp hc
  exact List.any_eq_true.mpr ⟨c, hmem, by simp [hor, hreplace, hmeets]⟩

/-- An insertion into a table of a strict layout puts its row among those that were there. -/
theorem splices (h : s.Adds g db t new id db') (hs : t.layout.isStrict = true) :
    db.Splices db' s.table [] [s.row t.layout id] := by
  refine h.splices_without.of_without fun r hr => ?_
  rw [Database.rows_of_table? h.table] at hr
  rw [givesWay_eq hs]
  exact decide_eq_false ((Table.insert?_eq_some (h.inserted hs)).2.2 r hr)

end Insertion.Adds
end ReviewQueue
