import ReviewQueue.Proofs.Store.Insertions
import ReviewQueue.Proofs.Text.Numerals

/-!
# References of new rows

Where references are enforced, a row is refused if the number it is to have in a column that refers to a table is that of
no row. A reference that is put off is not looked at by the statement, which is not told then that its row is not kept. In both
cases there is a way past this: references of rows that are there to the number of the new row, which is not there yet, can be
set off against those of the new row that lead nowhere.
-/

namespace ReviewQueue

/-- An integer of 64 bits is referred to as itself, unless its column is one of numbers with a point. -/
theorem Cell.asKind_key_asKind_int {k : Kind} (hk : k ≠ .real) {n : Int} (hn : Int64.minValue.toInt ≤ n ∧ n ≤ Int64.maxValue.toInt) :
    ((int n).asKind k).asKind .key = .int n := by
  cases k with
  | key | integer | blob => rfl
  | text => exact asNumber_toString hn
  | real => exact absurd rfl hk

/-- A number is not null, in whatever kind it is stored. -/
theorem Cell.asKind_ne_null {c : Cell} (hc : c ≠ .null) (k : Kind) : c.asKind k ≠ .null := by
  have hdouble : ∀ x, ofDouble x ≠ .null := by
    intro x
    unfold ofDouble
    split <;> exact Cell.noConfusion
  have hnumber : c.asNumber ≠ .null := by
    cases c with
    | null => exact absurd rfl hc
    | real x => exact hdouble x
    | text s =>
      simp only [asNumber]
      cases Numeral.read? s with
      | none => exact Cell.noConfusion
      | some u =>
        rw [Option.map_some, Option.getD_some, ofNumeral]
        split
        · exact Cell.noConfusion
        · exact hdouble _
    | int | blob => exact Cell.noConfusion
  cases k with
  | key | integer => exact hnumber
  | real =>
    simp only [asKind]
    cases hc' : c.asNumber with
    | null => exact absurd hc' hnumber
    | _ => exact Cell.noConfusion
  | text => cases c <;> first | exact hc | exact Cell.noConfusion
  | blob => exact hc

/-- A name means a column of a layout that refers to a table. If that column is a key it is the one of its table. -/
structure Layout.Refers (l : Layout) (name : String) (c : Column) (parent : String) : Prop where
  column : l.column? name = some c
  parent : c.parentName = some parent
  key : c.isKey = true → l.columns.find? (·.isKey) = some c

namespace Layout.Refers

variable {l : Layout} {name parent : String} {c : Column}

theorem answersTo (h : l.Refers name c parent) : c.answersTo name = true := by
  have hc := h.column
  unfold column? at hc
  simpa using List.find?_some hc

theorem mem_references (h : l.Refers name c parent) : (c, parent) ∈ l.references :=
  Layout.mem_references.mpr ⟨List.mem_of_find?_eq_some h.column, h.parent⟩

/-- The column is the first one that has its name. -/
theorem find?_name (h : l.Refers name c parent) (hk : c.isKey = false) :
    (l.columns.filter (!·.isKey)).find? (·.name = c.name) = some c := by
  obtain ⟨-, as, bs, hcolumns, has⟩ := List.find?_eq_some_iff_append.mp h.column
  have hbefore : (as.filter (!·.isKey)).find? (·.name = c.name) = none := by
    refine List.find?_eq_none.mpr fun x hx hname => ?_
    have hname : x.name = c.name := by simpa using hname
    have hmeant : x.answersTo name = true := by
      unfold Column.answersTo
      rw [hname]
      exact h.answersTo
    simpa [hmeant] using has x (List.mem_filter.mp hx).1
  rw [hcolumns, List.filter_append, List.find?_append, hbefore, Option.none_or, List.filter_cons_of_pos (by simp [hk])]
  exact List.find?_cons_of_pos (decide_eq_true rfl)

end Layout.Refers

namespace Insertion

variable {s : Insertion} {g : Guard} {db db' : Database} {t : Table} {name parent : String} {c : Column} {id : Int}

/-- The cell that is given under a name. Case does not count. -/
def given? (s : Insertion) (name : String) : Option Cell :=
  (s.cells.find? fun x => foldedName name = foldedName x.1).map (·.2)

/-- A number is unknown under a name: that means a column that refers to a table, and the number as it is stored there is that of no
row of that table, nor will it be that of the new row. References are looked at by each statement or put off until it is `late`. -/
def MissesParent (s : Insertion) (db : Database) (late : Bool) (name : String) (id : Int) : Prop :=
  ∃ t c parent, db.table? s.table = some t ∧ t.layout.Refers name c parent ∧ c.deferred = late ∧
    ∀ n, ((Cell.int id).asKind c.kind).asKind .key = .int n →
      (∀ p, db.table? parent = some p → p.row? n = none) ∧ (parent = s.table → s.number t ≠ .ok n)

/-- In a column without a point a number is unknown if no row has it, nor will the new row. -/
theorem MissesParent.of_free (ht : db.table? s.table = some t) (hc : t.layout.Refers name c parent) (hk : c.kind ≠ .real)
    (hid : Int64.minValue.toInt ≤ id ∧ id ≤ Int64.maxValue.toInt)
    (hfree : ∀ p, db.table? parent = some p → p.row? id = none) (hself : parent = s.table → s.number t ≠ .ok id) :
    s.MissesParent db c.deferred name id := by
  refine ⟨t, c, parent, ht, hc, rfl, fun n hn => ?_⟩
  cases (Cell.asKind_key_asKind_int hk hid).symm.trans hn
  exact ⟨hfree, hself⟩

/-- How many references to the number of a new row are set off against its own: those that are put off against such, and the
others in a wide statement alone. -/
def setOff (s : Insertion) (db : Database) (t : Table) (late : Bool) (id : Int) : Nat :=
  if late then db.referrers (·.deferred) s.table [id] else s.mended db t id

/-- Whether rows that are there refer to the number that the new row will have, and this is set off against its own references. -/
def IsAwaited (s : Insertion) (db : Database) (late : Bool) : Prop :=
  ∃ t id, db.table? s.table = some t ∧ s.number t = .ok id ∧ 0 < s.setOff db t late id

theorem setOff_eq_zero {late : Bool} (h : ¬s.IsAwaited db late) (ht : db.table? s.table = some t) (hid : s.number t = .ok id) :
    s.setOff db t late id = 0 := Nat.eq_zero_of_not_pos fun hpos => h ⟨t, id, ht, hid, hpos⟩

/-- The cell for a column is the one given under any name that means the column. -/
theorem cellFor_of_given? (hc : c.answersTo name = true) (h : s.given? name = some (.int id)) :
    Layout.cellFor s.cells c = (Cell.int id).asKind c.kind := by
  have hsame : ∀ n, c.answersTo n = decide (foldedName name = foldedName n) := by
    intro n
    unfold Column.answersTo at hc ⊢
    rw [of_decide_eq_true hc]
  have hcell : ((s.cells.find? (c.answersTo ·.1)).map (·.2.asKind c.kind)) = some ((Cell.int id).asKind c.kind) := by
    obtain ⟨x, hx, hcell⟩ := Option.map_eq_some_iff.mp h
    simp only [hsame, hx, Option.map_some, hcell]
  unfold Layout.cellFor
  rw [hcell, Option.getD_some]
  exact if_neg fun hnull => Cell.asKind_ne_null Cell.noConfusion c.kind hnull.1

/-- The new row has the number that is given for a referring column, in the kind of that. -/
theorem get_row_of_given? (h : t.layout.Refers name c parent) (hgiven : s.given? name = some (.int id)) {new : Int}
    (hnew : s.number t = .ok new) : (s.row t.layout new).get c = (Cell.int id).asKind c.kind := by
  have hcell := cellFor_of_given? h.answersTo hgiven
  by_cases hk : c.isKey = true
  · have hkind : c.kind = .key := of_decide_eq_true hk
    unfold number at hnew
    rw [h.key hk] at hnew
    simp only [hcell, hkind, Cell.asKind, Cell.asNumber] at hnew
    cases hnew
    rw [hkind, Row.get_of_isKey _ hk]
    rfl
  · have hk : c.isKey = false := by simpa using hk
    rw [Row.get_of_isKey_false _ hk, cell_row_of_find? new (h.find?_name hk), hcell]

/-- A number that is that of no row as it is stored is referred to in vain. -/
theorem refers_eq_false {k : Cell.Kind}
    (h : ∀ n, ((Cell.int id).asKind k).asKind .key = .int n → ∀ p, db.table? parent = some p → p.row? n = none) :
    db.refers parent ((Cell.int id).asKind k) = false := by
  unfold Database.refers
  split
  next hnull => exact absurd hnull (Cell.asKind_ne_null (Cell.asKind_ne_null Cell.noConfusion k) .key)
  next n hn =>
    cases hp : db.table? parent with
    | none => rfl
    | some p => simp [h n hn p hp]
  next => rfl

/-- A row for which an unknown number is given has a reference that leads nowhere once the row is there. -/
theorem exists_lost {late : Bool} {new : Table} {nid : Int} (hmiss : s.MissesParent db late name id)
    (hgiven : s.given? name = some (.int id)) (hadds : s.Adds g db t new nid db') :
    ∃ x ∈ t.layout.references, x.1.deferred = late ∧ (db.put new).refers x.2 ((s.row t.layout nid).get x.1) = false := by
  obtain ⟨t', c, parent, ht, hrefers, hlate, hnone⟩ := hmiss
  cases ht.symm.trans hadds.table
  have hstill : ∀ n, ((Cell.int id).asKind c.kind).asKind .key = .int n →
      ∀ p, (db.put new).table? parent = some p → p.row? n = none := by
    intro n hn p hp
    obtain ⟨hfree, hself⟩ := hnone n hn
    rw [← hadds.database] at hp
    by_cases hparent : parent = s.table
    · rw [hparent, hadds.table?_self] at hp
      cases hp
      refine List.find?_eq_none.mpr fun x hx hid => ?_
      rcases (Table.mem_of_place hadds.placed).mp hx with rfl | ⟨hx, -⟩
      · exact hself hparent (by rw [hadds.number, ← of_decide_eq_true hid, row_id])
      · exact List.find?_eq_none.mp (hfree t (by rw [hparent, ht])) x hx hid
    · rw [hadds.table?_of_ne hparent] at hp
      exact hfree p hp
  refine ⟨(c, parent), hrefers.mem_references, hlate, ?_⟩
  rw [get_row_of_given? hrefers hgiven hadds.number]
  exact refers_eq_false hstill

/-- A reference among some that leads nowhere is counted. -/
theorem lost_pos {references : List (Column × String)} {r : Row} {x : Column × String} (hx : x ∈ references)
    (h : db.refers x.2 (r.get x.1) = false) : 0 < db.lost references r :=
  List.length_pos_of_mem (List.mem_filter.mpr ⟨hx, by simp [h]⟩)

/-- No row is added for which a number is given that is unknown to the statement, unless the row is awaited. -/
theorem run_of_missesParent (hmiss : s.MissesParent db false name id) (hgiven : s.given? name = some (.int id))
    (hg : g.references = true) (hawaited : ¬s.IsAwaited db false) (r : Record) : s.run g db ≠ .ok (some r, db') := by
  intro hrun
  rcases run_eq_ok hrun with ⟨h, -, -⟩ | ⟨t, new, nid, hadds, -, hlost⟩
  · cases h
  have hmended : s.mended db t nid = 0 := setOff_eq_zero hawaited hadds.table hadds.number
  obtain ⟨x, hx, hprompt, hnowhere⟩ := exists_lost hmiss hgiven hadds
  have hpos : 0 < (db.put new).lost t.layout.prompt (s.row t.layout nid) :=
    lost_pos (List.mem_filter.mpr ⟨hx, by simp [hprompt]⟩) hnowhere
  have hmissed := hlost hg
  unfold missed at hmissed
  omega

/-- A row for which a number is given that is unknown at the end leaves a reference that leads nowhere, unless it is awaited. -/
theorem owing_of_missesParent {new : Table} {nid : Int} (hmiss : s.MissesParent db true name id)
    (hgiven : s.given? name = some (.int id)) (hg : g.references = true) (hawaited : ¬s.IsAwaited db true)
    (hadds : s.Adds g db t new nid db') : 0 < s.owing g db 0 := by
  have hmended : db.referrers (·.deferred) s.table [nid] = 0 := setOff_eq_zero hawaited hadds.table hadds.number
  obtain ⟨x, hx, hlate, hnowhere⟩ := exists_lost hmiss hgiven hadds
  have hpos : 0 < (db.put new).lost t.layout.putOff (s.row t.layout nid) :=
    lost_pos (List.mem_filter.mpr ⟨hx, by simp [hlate]⟩) hnowhere
  unfold owing mend
  simp only [hadds.table, hadds.addTo_eq, hg, if_true, row_id, hmended]
  split <;> omega

end Insertion

namespace Connection

variable {c : Connection} {s : Insertion} {name : String} {id : Int} {db : Database}

/-- A row that is left out leaves the database. -/
theorem database_of_insert_none (h : c.insert s = .ok (none, db)) : db = c.database := by
  obtain ⟨db', hrun, hkept⟩ := exists_run_of_insert h
  rcases Insertion.run_eq_ok hrun with ⟨-, hsame, -⟩ | ⟨_, _, _, -, hsome, -⟩
  · exact hkept.elim (·.trans hsame) id
  · cases hsome

/-- A connection that enforces references does not add a row for which an unknown number is given, unless the row is awaited: it
answers none for a reference that each statement looks at, and keeps none for one that is put off. -/
theorem insert_of_missesParent {late : Bool} (henforcing : c.enforcing = true) (hmiss : s.MissesParent c.database late name id)
    (hgiven : s.given? name = some (.int id)) (hawaited : ¬s.IsAwaited c.database late) {a : Option Record}
    (h : c.insert s = .ok (a, db)) : db = c.database ∧ (a.isSome → late = true ∧ s.returning ≠ []) := by
  cases a with
  | none => exact ⟨database_of_insert_none h, nofun⟩
  | some r =>
    obtain ⟨db', hrun, -⟩ := exists_run_of_insert h
    cases late with
    | false => exact absurd hrun (Insertion.run_of_missesParent hmiss hgiven henforcing hawaited r)
    | true =>
      rcases Insertion.run_eq_ok hrun with ⟨hsome, -, -⟩ | ⟨t, new, nid, hadds, -, -⟩
      · cases hsome
      have howing := Insertion.owing_of_missesParent hmiss hgiven henforcing hawaited hadds
      unfold insert keep at h
      split at h
      · cases h
      · rw [if_neg (Int.not_le.mpr howing)] at h
        split at h
        next hanswers =>
          cases h
          exact ⟨rfl, fun _ => ⟨rfl, of_decide_eq_true hanswers⟩⟩
        next => cases h

end Connection
end ReviewQueue
