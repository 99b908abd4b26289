import ReviewQueue.Proofs.Number.Rounding
import ReviewQueue.Proofs.Store.Changes

/-!
# Adding rows

An insertion that succeeds left its row out for a conflict that may be ignored, or put it among the others. A layout is
strict if no row gives way to another one and no reference is put off; there the row was added under a free number. Rows fit
their layout: their cells are brought to the kinds of the columns, and null only where that is allowed. Insertions and changes
keep this, so it holds of every table that came about through statements.
-/

namespace ReviewQueue

namespace Cell

@[simp] theorem asNumber_ofDouble (x : Double) : (ofDouble x).asNumber = ofDouble x := by
  cases h : x.toInt? <;> simp [ofDouble, asNumber, h]

@[simp] theorem asNumber_ofNumeral (u : Numeral) : (ofNumeral u).asNumber = ofNumeral u := by
  unfold ofNumeral
  split
  · rfl
  · exact asNumber_ofDouble _

/-- Reading a cell as a number twice is reading it once. -/
@[simp] theorem asNumber_asNumber (c : Cell) : c.asNumber.asNumber = c.asNumber := by
  cases c with
  | real x => exact asNumber_ofDouble x
  | text s =>
    cases h : Numeral.read? s with
    | none => simp [asNumber, h]
    | some u => simpa [asNumber, h] using asNumber_ofNumeral u
  | null | int | blob => rfl

/-- A whole number with a point is the number it was made from. -/
theorem withPoint_ofDouble_ofInt (n : Int) : (ofDouble (.ofInt n)).withPoint = .real (.ofInt n) := by
  unfold ofDouble
  split
  next m hm => rw [withPoint, Double.ofInt_toInt? hm]
  next => rfl

/-- A cell that was brought to a kind stays as it is. -/
@[simp] theorem asKind_asKind (k : Kind) (c : Cell) : (c.asKind k).asKind k = c.asKind k := by
  cases k with
  | key | integer => exact asNumber_asNumber c
  | text => cases c <;> rfl
  | blob => rfl
  | real =>
    have h := asNumber_asNumber c
    simp only [asKind]
    generalize c.asNumber = x at h
    cases x with
    | int n => exact withPoint_ofDouble_ofInt n
    | real x => exact congrArg withPoint h
    | null | text | blob => exact congrArg withPoint h

end Cell

namespace Layout

/-- Whether no two columns have the same name. -/
def distinct (l : Layout) : Bool := (l.columns.map (·.name)).Nodup

/-- Columns of different names are different ones. -/
theorem distinct_inj {l : Layout} (h : l.distinct = true) {c c' : Column} (hc : c ∈ l.columns) (hc' : c' ∈ l.columns)
    (hn : c.name = c'.name) : c = c' := by
  exact List.inj_on_of_nodup_map (of_decide_eq_true h) hc hc' hn

/-- The default of a column is as its kind has it. -/
@[simp] theorem asKind_fallback (c : Column) : c.fallback.asKind c.kind = c.fallback := by
  unfold Column.fallback
  split
  · exact Cell.asKind_null c.kind
  · exact Cell.asKind_asKind c.kind _

/-- The cell for a column is of its kind, wherever it comes from. -/
@[simp] theorem asKind_cellFor (cells : List (String × Cell)) (c : Column) : (cellFor cells c).asKind c.kind = cellFor cells c := by
  unfold cellFor Column.settle
  split
  · exact asKind_fallback c
  · cases cells.find? (c.answersTo ·.1) with
    | none => exact asKind_fallback c
    | some x => exact Cell.asKind_asKind c.kind _

/-- Whether a row that breaks a rule of a layout is refused whatever the rule, and references are looked at by each statement. -/
def isStrict (l : Layout) : Bool := l.columns.all fun c => c.onNull = .refuse && c.onRepeat = .refuse && !c.deferred

/-- The columns of a strict layout refuse, and put no reference off. -/
theorem strict_column {l : Layout} (h : l.isStrict = true) {c : Column} (hc : c ∈ l.columns) :
    c.onNull = .refuse ∧ c.onRepeat = .refuse ∧ c.deferred = false := by
  simpa [and_assoc] using List.all_eq_true.mp h c hc

/-- So no references are put off, -/
theorem putOff_eq_nil {l : Layout} (h : l.isStrict = true) : l.putOff = [] := by
  refine List.filter_eq_nil_iff.mpr ?_
  rintro ⟨c, parent⟩ hc
  simp [(strict_column h (mem_references.mp hc).1).2.2]

/-- and all are looked at by each statement. -/
theorem prompt_eq_references {l : Layout} (h : l.isStrict = true) : l.prompt = l.references := by
  refine List.filter_eq_self.mpr ?_
  rintro ⟨c, parent⟩ hc
  simp [(strict_column h (mem_references.mp hc).1).2.2]

/-- The columns in which rows may meet are the key and those of which no two cells are equal. -/
theorem mem_rivalries {l : Layout} {first : Column → Bool} {c : Column} :
    c ∈ l.rivalries first ↔ c ∈ l.columns ∧ (c.isKey = true ∨ c.unique = true) := by
  unfold rivalries
  simp only [List.mem_append, List.mem_filter, List.mem_reverse, Bool.and_eq_true, Bool.not_eq_true']
  cases first c <;> cases c.isKey <;> simp

end Layout

/-- A row fits a layout: it has a cell for each column that is not the key, in their order, each brought to the kind of
its column and null only where the column allows that. -/
structure Row.Fits (r : Row) (l : Layout) : Prop where
  names : r.Shaped l
  kinds : ∀ c ∈ l.columns, (r.get c).asKind c.kind = r.get c
  required : ∀ c ∈ l.columns, c.required = true → r.get c ≠ .null

/-- Whether all rows of a table fit its layout. -/
def Table.Fits (t : Table) : Prop := ∀ r ∈ t.rows, r.Fits t.layout

namespace Row

/-- A row that fits has a cell for each column. -/
theorem Fits.isSome_lookup {r : Row} {l : Layout} (h : r.Fits l) {c : Column} (hc : c ∈ l.columns) (hk : c.isKey = false) :
    (r.cells.lookup c.name).isSome := by
  have hmem : c.name ∈ r.cells.map (·.1) := by
    rw [show r.cells.map (·.1) = l.cellNames from h.names]
    exact List.mem_map_of_mem (List.mem_filter.mpr ⟨hc, by simp [hk]⟩)
  obtain ⟨⟨n, x⟩, hx, hn⟩ := List.mem_map.mp hmem
  rw [List.lookup_isSome_iff]
  exact ⟨(n, x), hx, by simpa using hn.symm⟩

/-- A column of the key has nothing to lose by being brought to its kind. -/
theorem asKind_get_of_isKey (r : Row) {c : Column} (hk : c.isKey = true) : (r.get c).asKind c.kind = r.get c := by
  have hkind : c.kind = .key := of_decide_eq_true hk
  rw [get_of_isKey r hk, hkind]
  rfl

/-- A column of a row that fits has the cell given for it, or keeps its own: names are distinct, so none given for another
column counts. -/
theorem Fits.cell_given {r : Row} {l : Layout} (h : r.Fits l) (hl : l.distinct = true) (cells : List (String × Cell)) :
    ∀ c ∈ l.columns, c.isKey = false →
      (r.given l cells).cell c.name = if Layout.isGiven cells c then Layout.cellFor cells c else r.cell c.name := by
  intro c hc hk
  cases hf : l.columns.find? (fun x => x.name = c.name && !x.isKey && Layout.isGiven cells x) with
  | none =>
    have hnot : ¬Layout.isGiven cells c = true := by simpa [hk] using List.find?_eq_none.mp hf c hc
    rw [if_neg hnot, cell_given_of_not_given r hf]
  | some x =>
    have hx := List.find?_some hf
    simp only [Bool.and_eq_true, decide_eq_true_eq] at hx
    have hxc := Layout.distinct_inj hl (List.mem_of_find?_eq_some hf) hc hx.1.1
    subst hxc
    rw [if_pos hx.2, Row.cell_given hf (h.isSome_lookup hc hk)]

/-- A row that fits still does once cells are given that are right by themselves. -/
theorem Fits.given {r : Row} {l : Layout} {cells : List (String × Cell)} (h : r.Fits l) (hl : l.distinct = true)
    (hnull : ∀ c ∈ l.columns, c.isKey = false → Layout.isGiven cells c = true → c.required = true →
      Layout.cellFor cells c ≠ .null) : (r.given l cells).Fits l := by
  have hcell : ∀ c ∈ l.columns, c.isKey = false → (r.given l cells).get c = r.get c ∨
      (Layout.isGiven cells c = true ∧ (r.given l cells).get c = Layout.cellFor cells c) := by
    intro c hc hk
    rw [get_of_isKey_false _ hk, get_of_isKey_false _ hk, h.cell_given hl cells c hc hk]
    by_cases hg : Layout.isGiven cells c = true
    · exact Or.inr ⟨hg, if_pos hg⟩
    · exact Or.inl (if_neg hg)
  refine ⟨(given_names r l cells).trans h.names, ?_, ?_⟩
  · intro c hc
    by_cases hk : c.isKey = true
    · exact asKind_get_of_isKey _ hk
    · rcases hcell c hc (by simpa using hk) with hold | ⟨-, hnew⟩
      · rw [hold]
        exact h.kinds c hc
      · rw [hnew]
        exact Layout.asKind_cellFor cells c
  · intro c hc hr
    by_cases hk : c.isKey = true
    · rw [get_of_isKey _ hk]
      exact Cell.noConfusion
    · rcases hcell c hc (by simpa using hk) with hold | ⟨hg, hnew⟩
      · rw [hold]
        exact h.required c hc hr
      · rw [hnew]
        exact hnull c hc (by simpa using hk) hg hr

end Row

namespace Insertion

variable {s : Insertion} {g : Guard} {db db' : Database} {t new : Table} {l : Layout}

@[simp] theorem row_id (s : Insertion) (l : Layout) (id : Int) : (s.row l id).id = id := rfl

/-- The first column of a name has the cell for it in the new row. -/
theorem cell_row_of_find? (id : Int) {c : Column} (hc : (l.columns.filter (!·.isKey)).find? (·.name = c.name) = some c) :
    (s.row l id).cell c.name = Layout.cellFor s.cells c := by
  unfold row Row.cell
  generalize l.columns.filter (!·.isKey) = columns at hc
  induction columns with
  | nil => cases hc
  | cons x columns ih =>
    simp only [List.map_cons, List.lookup_cons]
    by_cases hn : x.name = c.name
    · rw [List.find?_cons_of_pos (by simpa using hn)] at hc
      cases hc
      simp
    · have hne : (c.name == x.name) = false := by simpa using fun e => hn e.symm
      rw [List.find?_cons_of_neg (by simpa using hn)] at hc
      rw [hne]
      exact ih hc

/-- A column of the new row has the cell for it. -/
theorem cell_row (hl : l.distinct = true) (id : Int) {c : Column} (hc : c ∈ l.columns) (hk : c.isKey = false) :
    (s.row l id).cell c.name = Layout.cellFor s.cells c := by
  refine cell_row_of_find? id ?_
  have hmem : c ∈ l.columns.filter (!·.isKey) := List.mem_filter.mpr ⟨hc, by simp [hk]⟩
  have hsome : ((l.columns.filter (!·.isKey)).find? (·.name = c.name)).isSome := by
    rw [List.find?_isSome]
    exact ⟨c, hmem, decide_eq_true rfl⟩
  obtain ⟨x, hx⟩ := Option.isSome_iff_exists.mp hsome
  have hname : x.name = c.name := by simpa using List.find?_some hx
  rw [hx, Layout.distinct_inj hl (List.mem_filter.mp (List.mem_of_find?_eq_some hx)).1 hc hname]

/-- Cells that stop no row are not null in required columns, and among the words of each column. -/
theorem of_cellStop? (h : s.cellStop? g l = none) {c : Column} (hc : c ∈ l.columns) (hk : c.isKey = false) :
    (c.required = true → Layout.cellFor s.cells c ≠ .null) ∧
      (g.words = true → c.admits (Layout.cellFor s.cells c) = true) :=
  Layout.stop?_eq_none_iff.mp h c (List.mem_filter.mpr ⟨hc, by simp [hk]⟩)

/-- The new row fits its layout. -/
theorem row_fits (hl : l.distinct = true) (h : s.cellStop? g l = none) (id : Int) : (s.row l id).Fits l := by
  refine ⟨s.row_shaped l id, fun c hc => ?_, fun c hc hr => ?_⟩ <;>
    by_cases hk : c.isKey = true
  · exact Row.asKind_get_of_isKey _ hk
  · have hk : c.isKey = false := by simpa using hk
    rw [Row.get_of_isKey_false _ hk, cell_row hl id hc hk]
    exact Layout.asKind_cellFor s.cells c
  · rw [Row.get_of_isKey _ hk]
    exact Cell.noConfusion
  · have hk : c.isKey = false := by simpa using hk
    rw [Row.get_of_isKey_false _ hk, cell_row hl id hc hk]
    exact (of_cellStop? h hc hk).1 hr

/-! ## Rows in the way -/

/-- The number of a new row is the next one unless it is given for the key, where it then stands. -/
theorem number_eq_ok {id : Int} (h : s.number t = .ok id) : id = t.nextId ∨ ∃ c ∈ t.layout.columns, c.isKey = true := by
  unfold number at h
  split at h
  next => cases h; exact Or.inl rfl
  next c hc => exact Or.inr ⟨c, List.mem_of_find?_eq_some hc, List.find?_some hc⟩

section Strict

variable (hs : t.layout.isStrict = true)
include hs

/-- An insertion into a strict layout replaces no row. -/
theorem clause_ne_replace {c : Column} (hc : c ∈ t.layout.columns) : s.clause c ≠ .replace := by
  unfold clause
  split
  · exact Clause.noConfusion
  · rw [(Layout.strict_column hs hc).2.1]
    exact Clause.noConfusion

/-- A row of a table of a strict layout gives way to that of its number alone. -/
theorem givesWay_eq (r x : Row) :
    Table.givesWay r s.clause (t.layout.rivalries s.isUnless) x = decide (x.id = r.id) := by
  have hnone : (t.layout.rivalries s.isUnless).any (fun c => s.clause c = .replace && r.meets x c) = false := by
    rw [List.any_eq_false]
    intro c hc
    simp [clause_ne_replace hs (Layout.mem_rivalries.mp hc).1]
  rw [Table.givesWay, hnone, Bool.or_false]

/-- A row that has no rival can be put under a free number. -/
theorem place_of_insert? {r : Row} {hr : r.Shaped t.layout} (hins : t.insert? r hr = some new)
    (hdiff : t.rival? r s.clause (t.layout.rivalries s.isUnless) = none) :
    t.place r hr s.clause (t.layout.rivalries s.isUnless) = .ok new := by
  obtain ⟨hlayout, hrows, hfree⟩ := Table.insert?_eq_some hins
  unfold Table.place
  split
  next c hc => rw [hdiff] at hc; cases hc
  next =>
    refine congrArg Except.ok (Table.ext hlayout.symm (Eq.trans ?_ hrows.symm))
    refine congrArg (Table.insertRow r) (List.filter_eq_self.mpr fun x hx => ?_)
    rw [givesWay_eq hs]
    simpa using hfree x hx

/-- A row that was put has a free number: one that is given for the key stands in a column in which rows may meet. -/
theorem insert?_of_place {id : Int} (hid : s.number t = .ok id)
    (h : t.place (s.row t.layout id) (s.row_shaped ..) s.clause (t.layout.rivalries s.isUnless) = .ok new) :
    t.insert? (s.row t.layout id) (s.row_shaped ..) = some new := by
  obtain ⟨hnone, hlayout, hrows⟩ := Table.place_eq_ok h
  have hfree : ∀ x ∈ t.rows, x.id ≠ (s.row t.layout id).id := by
    rcases number_eq_ok hid with rfl | ⟨c, hc, hk⟩
    · exact t.nextId_free
    · intro x hx he
      have hmeets : (s.row t.layout id).meets x c = true := by
        unfold Row.meets
        rw [Row.get_of_isKey _ hk, Row.get_of_isKey _ hk, he]
        exact Cell.same_self Cell.noConfusion
      have := List.find?_eq_none.mp hnone c (Layout.mem_rivalries.mpr ⟨hc, Or.inl hk⟩)
      simp only [Bool.and_eq_true, decide_eq_true_eq, List.any_eq_true, not_and, not_exists] at this
      exact this (clause_ne_replace hs hc) x hx hmeets
  unfold Table.insert?
  rw [dif_pos hfree]
  refine congrArg some (Table.ext hlayout.symm (Eq.trans ?_ hrows.symm))
  refine congrArg (Table.insertRow _) (List.filter_eq_self.mpr fun x hx => ?_).symm
  rw [givesWay_eq hs]
  exact congrArg not (decide_eq_false (hfree x hx))

/-- A row has no rival if no other row has its cell in a column of which no two cells are equal. -/
theorem rival?_eq_none_iff {r : Row} (hfree : ∀ x ∈ t.rows, x.id ≠ r.id) :
    t.rival? r s.clause (t.layout.rivalries s.isUnless) = none ↔ ∀ c ∈ t.layout.columns, c.unique = true → c.isKey = false →
      ∀ x ∈ t.rows, Cell.same (x.cell c.name) (r.cell c.name) = false := by
  unfold Table.rival?
  rw [List.find?_eq_none]
  constructor
  · intro h c hc hu hk x hx
    have := h c (Layout.mem_rivalries.mpr ⟨hc, Or.inr hu⟩)
    simp only [Bool.and_eq_true, decide_eq_true_eq, List.any_eq_true, not_and, not_exists] at this
    rw [← Bool.not_eq_true, ← Row.get_of_isKey_false _ hk, ← Row.get_of_isKey_false _ hk]
    exact this (clause_ne_replace hs hc) x hx
  · intro h c hc
    obtain ⟨hmem, hor⟩ := Layout.mem_rivalries.mp hc
    simp only [Bool.and_eq_true, decide_eq_true_eq, List.any_eq_true, not_and, not_exists, Row.meets]
    intro _ x hx
    by_cases hk : c.isKey = true
    · rw [Row.get_of_isKey _ hk, Row.get_of_isKey _ hk]
      simpa [Cell.same, Cell.equal] using hfree x hx
    · have hk : c.isKey = false := by simpa using hk
      rw [Row.get_of_isKey_false _ hk, Row.get_of_isKey_false _ hk, h c hmem (by simpa [hk] using hor) hk x hx]
      exact Bool.noConfusion

end Strict

/-- The column in which a row has a rival is one of which no two cells are equal, or the key, and the rival has the row's cell
in it. -/
theorem rival?_eq_some {r : Row} {c : Column} {columns : List Column} (h : t.rival? r s.clause columns = some c) :
    c ∈ columns ∧ ∃ x ∈ t.rows, r.meets x c = true := by
  have hc := List.find?_some h
  simp only [Bool.and_eq_true, List.any_eq_true] at hc
  exact ⟨List.mem_of_find?_eq_some h, hc.2⟩

/-- The row of the next number has no rival if no row has its cell in a column of which no two cells are equal. -/
theorem rival?_nextId_eq_none_iff (hs : t.layout.isStrict = true) (hl : t.layout.distinct = true) :
    t.rival? (s.row t.layout t.nextId) s.clause (t.layout.rivalries s.isUnless) = none ↔
      ∀ c ∈ t.layout.columns, c.unique = true → c.isKey = false →
        ∀ x ∈ t.rows, Cell.same (x.cell c.name) (Layout.cellFor s.cells c) = false := by
  rw [rival?_eq_none_iff hs t.nextId_free]
  refine forall₄_congr fun c hc _ hk => ?_
  rw [cell_row hl _ hc hk]

/-- A rival of the row of the next number has its cell in a column of which no two cells are equal. -/
theorem rival?_nextId_eq_some (hl : t.layout.distinct = true) {c : Column}
    (h : t.rival? (s.row t.layout t.nextId) s.clause (t.layout.rivalries s.isUnless) = some c) :
    c ∈ t.layout.columns ∧ c.unique = true ∧ c.isKey = false ∧
      ∃ x ∈ t.rows, Cell.same (x.cell c.name) (Layout.cellFor s.cells c) = true := by
  obtain ⟨hmem, x, hx, hmeets⟩ := rival?_eq_some h
  obtain ⟨hc, hor⟩ := Layout.mem_rivalries.mp hmem
  unfold Row.meets at hmeets
  by_cases hk : c.isKey = true
  · rw [Row.get_of_isKey _ hk, Row.get_of_isKey _ hk] at hmeets
    have hid : x.id = (s.row t.layout t.nextId).id := by simpa [Cell.same, Cell.equal] using hmeets
    exact absurd hid (t.nextId_free x hx)
  · have hk : c.isKey = false := by simpa using hk
    rw [Row.get_of_isKey_false _ hk, Row.get_of_isKey_false _ hk, cell_row hl _ hc hk] at hmeets
    exact ⟨hc, hor.resolve_left (by simp [hk]), hk, x, hx, hmeets⟩

/-! ## What an insertion does -/

/-- An insertion adds its row: `t` is the table before, `new` the table with the row, and `db'` the database with that
table. -/
structure Adds (s : Insertion) (g : Guard) (db : Database) (t new : Table) (id : Int) (db' : Database) : Prop where
  table : db.table? s.table = some t
  number : s.number t = .ok id
  cells : s.cellStop? g t.layout = none
  placed : t.place (s.row t.layout id) (s.row_shaped ..) s.clause (t.layout.rivalries s.isUnless) = .ok new
  database : db' = db.put new

/-- A row that was added to a table is right by itself and stands among the others. -/
theorem addTo_eq_ok {r : Row} (h : s.addTo g t = .ok (r, new)) : ∃ id, r = s.row t.layout id ∧ s.number t = .ok id ∧
    s.cellStop? g t.layout = none ∧
    t.place (s.row t.layout id) (s.row_shaped ..) s.clause (t.layout.rivalries s.isUnless) = .ok new := by
  unfold addTo at h
  split at h
  · cases h
  next id hid =>
    split at h
    · cases h
    next hcells =>
      cases hplace : t.place (s.row t.layout id) (s.row_shaped ..) s.clause (t.layout.rivalries s.isUnless) with
      | error stop => rw [hplace] at h; cases h
      | ok u =>
        rw [hplace] at h
        cases h
        exact ⟨id, rfl, hid, hcells, hplace⟩

/-- How many references an insertion leaves that lead nowhere and are looked at by the statement itself: those of its row, and
those to rows that gave way to it. -/
def missed (s : Insertion) (db : Database) (t new : Table) (id : Int) : Nat :=
  (db.put new).referrers (!·.deferred) s.table (gone t new) + (db.put new).lost t.layout.prompt (s.row t.layout id)

/-- How many references an insertion mends that can be set off against those. -/
def mended (s : Insertion) (db : Database) (t : Table) (id : Int) : Nat :=
  if s.isWide t.layout then db.referrers (!·.deferred) s.table [id] else 0

/-- A row that is right by itself and has no rival is added to its table. -/
theorem Adds.addTo_eq {id : Int} (h : s.Adds g db t new id db') : s.addTo g t = .ok (s.row t.layout id, new) := by
  unfold addTo
  simp only [h.number, h.cells, h.placed]
  rfl

/-- An insertion whose row is right by itself and has no rival adds it, or is refused for a reference. -/
theorem run_eq {id : Int} (h : s.Adds g db t new id db') :
    s.run g db = if g.references && s.mended db t id < s.missed db t new id then .error .dangling
      else .ok (some ((s.row t.layout id).record (t.layout.pick s.returning)), db') := by
  unfold run
  rw [Database.need_eq_ok.mpr h.table, h.database]
  simp only [bind, Except.bind, h.addTo_eq]
  rfl

/-- An insertion whose row is stopped for its cells is refused for that, if its number is given right. -/
theorem run_eq_error {id : Int} {f : Fault} (ht : db.table? s.table = some t) (hid : s.number t = .ok id)
    (hcells : s.cellStop? g t.layout = some (.refused f)) : s.run g db = .error f := by
  unfold run addTo
  rw [Database.need_eq_ok.mpr ht]
  simp only [bind, Except.bind, hid, hcells]

/-- An insertion whose row has a rival leaves it out if that conflict is to be ignored, and is refused otherwise. -/
theorem run_of_rival {id : Int} {c : Column} (ht : db.table? s.table = some t) (hid : s.number t = .ok id)
    (hcells : s.cellStop? g t.layout = none)
    (hrival : t.rival? (s.row t.layout id) s.clause (t.layout.rivalries s.isUnless) = some c) :
    s.run g db = if s.clause c = .skip then .ok (none, db) else .error (.twiceIn t.layout.spelling c.name) := by
  have hplace : t.place (s.row t.layout id) (s.row_shaped ..) s.clause (t.layout.rivalries s.isUnless) =
      .error (if s.clause c = .skip then .skipped else .refused (.twiceIn t.layout.spelling c.name)) := by
    unfold Table.place
    split
    next x hx => rw [hrival] at hx; cases hx; rfl
    next hx => rw [hrival] at hx; cases hx
  unfold run addTo
  rw [Database.need_eq_ok.mpr ht]
  simp only [bind, Except.bind, hid, hcells, hplace, Except.map]
  by_cases hskip : s.clause c = .skip <;> simp only [hskip, if_true, if_false]

/-- An insertion that succeeds left its row out and changed nothing, or added it and leaves no more references that lead nowhere
than it mends. -/
theorem run_eq_ok {a : Option Record} (h : s.run g db = .ok (a, db')) :
    (a = none ∧ db' = db ∧ ∃ t, db.table? s.table = some t ∧ s.addTo g t = .error .skipped) ∨
    ∃ t new id, s.Adds g db t new id db' ∧ a = some ((s.row t.layout id).record (t.layout.pick s.returning)) ∧
      (g.references = true → s.missed db t new id ≤ s.mended db t id) := by
  cases hneed : db.need s.table with
  | error f =>
    unfold run at h
    rw [hneed] at h
    cases h
  | ok t =>
    have ht := Database.need_eq_ok.mp hneed
    cases hadd : s.addTo g t with
    | error stop =>
      unfold run at h
      simp only [hneed, bind, Except.bind, hadd] at h
      cases stop with
      | refused f => cases h
      | skipped =>
        cases h
        exact Or.inl ⟨rfl, rfl, t, ht, hadd⟩
    | ok v =>
      obtain ⟨row, new⟩ := v
      obtain ⟨id, -, hid, hcells, hplaced⟩ := addTo_eq_ok hadd
      have hadds : s.Adds g db t new id (db.put new) := ⟨ht, hid, hcells, hplaced, rfl⟩
      rw [run_eq hadds] at h
      by_cases hrefs : (g.references && decide (s.mended db t id < s.missed db t new id)) = true
      · rw [if_pos hrefs] at h
        cases h
      · rw [if_neg hrefs] at h
        cases h
        refine Or.inr ⟨t, new, id, hadds, rfl, fun hg => ?_⟩
        rw [hg, Bool.true_and, decide_eq_true_eq] at hrefs
        exact Nat.not_lt.mp hrefs

/-- A row of a strict layout that is left out is left out for a conflict that may be ignored. -/
theorem rival_of_skipped (hs : t.layout.isStrict = true) (h : s.addTo g t = .error .skipped) : ∃ id c, s.number t = .ok id ∧
    t.rival? (s.row t.layout id) s.clause (t.layout.rivalries s.isUnless) = some c ∧ s.isUnless c = true := by
  unfold addTo at h
  split at h
  · cases h
  next id hid =>
    split at h
    next stop hstop =>
      cases h
      unfold cellStop? Layout.stop? at hstop
      split at hstop
      next c hc =>
        rw [(Layout.strict_column hs (List.mem_filter.mp (List.mem_of_find?_eq_some hc)).1).1] at hstop
        cases hstop
      next =>
        obtain ⟨c, -, hc⟩ := Option.map_eq_some_iff.mp hstop
        cases hc
    next =>
      unfold Table.place at h
      split at h
      next c hc =>
        have hmem := (Layout.mem_rivalries.mp (rival?_eq_some hc).1).1
        refine ⟨id, c, hid, hc, ?_⟩
        by_contra hnot
        have hclause : s.clause c = .refuse := by
          rw [clause, if_neg hnot]
          exact (Layout.strict_column hs hmem).2.1
        rw [hclause] at h
        cases h
      next => cases h

/-- In a strict layout no row gives way, and references are looked at by each statement. -/
theorem gone_eq_nil {id : Int} (hs : t.layout.isStrict = true) (h : s.Adds g db t new id db') : gone t new = [] := by
  refine List.filter_eq_nil_iff.mpr fun n hn => ?_
  obtain ⟨x, hx, rfl⟩ := List.mem_map.mp hn
  have hmem : x ∈ new.rows := (Table.mem_of_insert? (insert?_of_place hs h.number h.placed)).mpr (Or.inr hx)
  simp [Table.row?_eq_some hmem]

/-- What leads nowhere after an insertion into a strict layout are references of the new row. -/
theorem missed_eq {id : Int} (hs : t.layout.isStrict = true) (h : s.Adds g db t new id db') :
    s.missed db t new id = db'.lost t.layout.references (s.row t.layout id) := by
  unfold missed
  rw [gone_eq_nil hs h, Change.referrers_nil, Layout.prompt_eq_references hs, Nat.zero_add, h.database]

/-- An insertion into a strict layout that adds a row is kept unless a reference of the row leads nowhere and is not set off.
-/
theorem run_eq_of_strict {id : Int} (hs : t.layout.isStrict = true) (h : s.Adds g db t new id db') :
    s.run g db = if g.references && s.mended db t id < db'.lost t.layout.references (s.row t.layout id) then .error .dangling
      else .ok (some ((s.row t.layout id).record (t.layout.pick s.returning)), db') := by
  rw [run_eq h, missed_eq hs h]

/-- An insertion into a table of a strict layout puts no reference off. -/
theorem owing_eq_zero (hs : ∀ t, db.table? s.table = some t → t.layout.isStrict = true) : s.owing g db 0 = 0 := by
  unfold owing
  split
  next => rfl
  next t ht =>
    split
    next => rfl
    next r new hadd =>
      obtain ⟨id, -, hid, hcells, hplaced⟩ := addTo_eq_ok hadd
      have hgone : gone t new = [] := gone_eq_nil (hs t ht) ⟨ht, hid, hcells, hplaced, rfl⟩
      have hlost : (db.put new).lost [] r = 0 := rfl
      rw [hgone, Change.referrers_nil, Layout.putOff_eq_nil (hs t ht), hlost]
      simp [mend]

theorem Adds.layout_eq {id : Int} (h : s.Adds g db t new id db') : new.layout = t.layout := (Table.place_eq_ok h.placed).2.1

/-- A row added to a table of a strict layout has a free number. -/
theorem Adds.inserted {id : Int} (h : s.Adds g db t new id db') (hs : t.layout.isStrict = true) :
    t.insert? (s.row t.layout id) (s.row_shaped ..) = some new := insert?_of_place hs h.number h.placed

/-- A row added to a table has no rival there. -/
theorem Adds.differs {id : Int} (h : s.Adds g db t new id db') :
    t.rival? (s.row t.layout id) s.clause (t.layout.rivalries s.isUnless) = none := (Table.place_eq_ok h.placed).1

/-- The rows of the table afterwards are those before and the new one. -/
theorem Adds.mem_rows {id : Int} (h : s.Adds g db t new id db') (hs : t.layout.isStrict = true) {x : Row} :
    x ∈ new.rows ↔ x = s.row t.layout id ∨ x ∈ t.rows :=
  Table.mem_of_insert? (h.inserted hs)

/-- After an insertion its table has the new row and every other name means what it meant. -/
theorem Adds.table?_self {id : Int} (h : s.Adds g db t new id db') : db'.table? s.table = some new := by
  have hname : new.name = s.table := (congrArg Layout.name h.layout_eq).trans (Database.name_of_table? h.table)
  rw [h.database, ← hname]
  refine Database.table?_put_self (u := t) ?_
  rw [hname]
  exact h.table

/-- Other tables are left. -/
theorem Adds.table?_of_ne {id : Int} (h : s.Adds g db t new id db') {name : String} (hn : name ≠ s.table) :
    db'.table? name = db.table? name := by
  have hname : new.name = s.table := (congrArg Layout.name h.layout_eq).trans (Database.name_of_table? h.table)
  rw [h.database]
  exact Database.table?_put_of_ne (by rw [hname]; exact hn)

/-- The rows of the table's name are those from before and the new one. -/
theorem Adds.mem_rows_table {id : Int} (h : s.Adds g db t new id db') (hs : t.layout.isStrict = true) {x : Row} :
    x ∈ db'.rows s.table ↔ x = s.row t.layout id ∨ x ∈ db.rows s.table := by
  rw [Database.rows_of_table? h.table, Database.rows_of_table? h.table?_self, h.mem_rows hs]

/-! ## Insertions that succeed -/

/-- Whether all names of an insertion mean columns, and a conflict that it ignores can arise. -/
def isKnown (s : Insertion) (l : Layout) : Bool :=
  l.knows (s.cells.map (·.1)) && l.knows s.returning && s.unlessIn.all (isTarget l)

/-- An insertion is not refused before it runs if its names mean columns and references lead to tables with keys. -/
theorem faults_eq_nil (ht : db.table? s.table = some t) (hs : s.isKnown t.layout = true) (hkey : t.layout.hasKey = true)
    (hparents : ∀ x ∈ t.layout.references, ∃ p, db.table? x.2 = some p ∧ p.layout.hasKey = true) : s.faults g db = [] := by
  simp only [isKnown, Bool.and_eq_true] at hs
  obtain ⟨⟨hcells, hreturning⟩, htarget⟩ := hs
  have hknown : ∀ x ∈ s.cells, (t.layout.column? x.1).isSome = true := fun x hx =>
    List.all_eq_true.mp hcells x.1 (List.mem_map_of_mem hx)
  have hrefs : db.faultyReferences t.layout (fun _ => true) = [] := by
    refine List.filterMap_eq_nil_iff.mpr fun x hx => ?_
    obtain ⟨p, hp, hpk⟩ := hparents x hx
    simp only [if_true, Database.referenceFault?, hp, hpk]
  have hchildren : ∀ p, db.faultyChildren t.layout p = [] := fun p => if_pos hkey
  unfold faults Database.faultsOn
  rw [ht]
  simp only [hrefs, hchildren, Layout.unknown_eq_nil hreturning, ite_self, List.append_nil, List.append_eq_nil_iff]
  refine ⟨List.filterMap_eq_nil_iff.mpr fun x hx => if_pos (hknown x hx), ?_⟩
  cases hu : s.unlessIn with
  | none => rfl
  | some name =>
    rw [hu, Option.all_some] at htarget
    simp only [htarget, if_true]

/-- Cells stop no row if those of required columns are not null and each is among the words of its column. -/
theorem cellStop?_eq_none (h : ∀ c ∈ l.columns, c.isKey = false →
    (c.required = true → Layout.cellFor s.cells c ≠ .null) ∧ c.admits (Layout.cellFor s.cells c) = true) :
    s.cellStop? g l = none := by
  refine Layout.stop?_eq_none_iff.mpr fun c hc => ?_
  obtain ⟨hmem, hk⟩ := List.mem_filter.mp hc
  obtain ⟨hnull, hword⟩ := h c hmem (by simpa using hk)
  exact ⟨hnull, fun _ => hword⟩

/-- A row for which no number is given gets the next one. -/
theorem number_eq_nextId (key : Column) (hkey : t.layout.columns.find? (·.isKey) = some key)
    (hnull : Layout.cellFor s.cells key = .null) : s.number t = .ok t.nextId := by
  unfold number
  rw [hkey]
  simp only [hnull]

/-- A row of the next number can be added. -/
theorem exists_insert? (s : Insertion) (t : Table) :
    ∃ new, t.insert? (s.row t.layout t.nextId) (s.row_shaped ..) = some new := by
  have hfree : ∀ x ∈ t.rows, x.id ≠ (s.row t.layout t.nextId).id := t.nextId_free
  unfold Table.insert?
  rw [dif_pos hfree]
  exact ⟨_, rfl⟩

/-- A row is added to a table of a strict layout if it is right by itself, has no rival and refers to rows. -/
theorem exists_adds (ht : db.table? s.table = some t) (hs : t.layout.isStrict = true) (hid : s.number t = .ok t.nextId)
    (hcells : s.cellStop? g t.layout = none)
    (hdiff : t.rival? (s.row t.layout t.nextId) s.clause (t.layout.rivalries s.isUnless) = none)
    (hrefs : ∀ db' new, s.Adds g db t new t.nextId db' → ∀ x ∈ t.layout.references,
      db'.refers x.2 ((s.row t.layout t.nextId).get x.1) = true) :
    ∃ new, s.Adds g db t new t.nextId (db.put new) ∧
      s.run g db = .ok (some ((s.row t.layout t.nextId).record (t.layout.pick s.returning)), db.put new) := by
  obtain ⟨new, hins⟩ := s.exists_insert? t
  have hadds : s.Adds g db t new t.nextId (db.put new) := ⟨ht, hid, hcells, place_of_insert? hs hins hdiff, rfl⟩
  have hlost : (db.put new).lost t.layout.references (s.row t.layout t.nextId) = 0 := by
    unfold Database.lost
    rw [List.length_eq_zero_iff, List.filter_eq_nil_iff]
    intro x hx
    simp [hrefs _ _ hadds x hx]
  refine ⟨new, hadds, ?_⟩
  rw [run_eq_of_strict hs hadds, hlost]
  simp

end Insertion

/-- The cell of a row's number refers to it. -/
theorem Database.refers_of_mem {db : Database} {name : String} {r : Row} (h : r ∈ db.rows name) :
    db.refers name (.int r.id) = true := by
  unfold rows at h
  unfold refers
  cases ht : db.table? name with
  | none =>
    rw [ht] at h
    cases h
  | some t =>
    rw [ht] at h
    exact Table.isSome_row?_iff.mpr (List.mem_map_of_mem h)

namespace Change

variable {s : Change} {g : Guard} {l : Layout} {t : Table} {db db' : Database}

/-- Given cells that stop no row are not null in required columns, and among the words of each column. -/
theorem of_cellStop? (h : s.cellStop? g l = none) {c : Column} (hc : c ∈ l.columns) (hk : c.isKey = false)
    (hg : Layout.isGiven s.cells c = true) : (c.required = true → Layout.cellFor s.cells c ≠ .null) ∧
      (g.words = true → c.admits (Layout.cellFor s.cells c) = true) :=
  Layout.stop?_eq_none_iff.mp h c (List.mem_filter.mpr ⟨hc, by simp [hk, hg]⟩)

end Change

namespace Connection

/-- An insertion into a table of a strict layout is kept as it ran. -/
theorem insert_eq_insertWithin {c : Connection} {s : Insertion}
    (hs : ∀ t, c.database.table? s.table = some t → t.layout.isStrict = true) : c.insert s = c.insertWithin s := by
  have howing : s.owing c.guard c.database 0 = 0 := Insertion.owing_eq_zero hs
  unfold insert keep
  rw [howing]
  cases c.insertWithin s with
  | error f => rfl
  | ok v => exact if_pos (Int.le_refl 0)

/-- An insertion within a transaction that succeeds ran. -/
theorem run_of_insertWithin {c : Connection} {s : Insertion} {v : Option Record × Database} (h : c.insertWithin s = .ok v) :
    s.run c.guard c.database = .ok v := by
  unfold insertWithin write at h
  split at h
  · cases h
  · split at h
    · cases h
    · exact h

/-- An insertion into a table of a strict layout that succeeds is one that ran. -/
theorem run_of_insert {c : Connection} {s : Insertion} {v : Option Record × Database}
    (hs : ∀ t, c.database.table? s.table = some t → t.layout.isStrict = true) (h : c.insert s = .ok v) :
    s.run c.guard c.database = .ok v := run_of_insertWithin (insert_eq_insertWithin hs ▸ h)

/-- An insertion that succeeds is one that ran, though what it did may not be kept. -/
theorem exists_run_of_insert {c : Connection} {s : Insertion} {a : Option Record} {db : Database}
    (h : c.insert s = .ok (a, db)) : ∃ db', s.run c.guard c.database = .ok (a, db') ∧ (db = db' ∨ db = c.database) := by
  unfold insert keep at h
  split at h
  · cases h
  next a' db' hrun =>
    have hrun := run_of_insertWithin hrun
    split at h
    · cases h
      exact ⟨db, hrun, Or.inl rfl⟩
    · split at h
      · cases h
        exact ⟨db', hrun, Or.inr rfl⟩
      · cases h

/-- An insertion runs if it is not refused before and the lock is free. -/
theorem insertWithin_eq {c : Connection} {s : Insertion} (hfaults : s.faults c.guard c.database = [])
    (hlock : c.locked = false) : c.insertWithin s = s.run c.guard c.database := by
  unfold insertWithin write
  rw [hfaults, hlock]
  rfl

end Connection
end ReviewQueue
