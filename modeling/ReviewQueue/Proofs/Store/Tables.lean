import Mathlib.Data.List.Nodup
import Mathlib.Data.List.Perm.Subperm
import ReviewQueue.Store.Statement

/-!
# Tables and databases

What reading a table finds after a row was added, after rows were changed and after a table was put in place of another.
A table is named by its layout, so putting one table leaves what every other name means.
-/

namespace ReviewQueue

namespace Row

/-- The cell a row has under a name, null if it has none. -/
def cell (r : Row) (name : String) : Cell := (r.cells.lookup name).getD .null

/-- The cell of the key is the number of the row. -/
@[simp] theorem get_of_isKey {c : Column} (r : Row) (h : c.isKey = true) : r.get c = .int r.id := by simp [get, h]

/-- Any other cell is the one under the name of its column. -/
@[simp] theorem get_of_isKey_false {c : Column} (r : Row) (h : c.isKey = false) : r.get c = r.cell c.name := by simp [get, h, cell]

end Row

namespace Table

/-! ## Rows -/

/-- Rows in ascending order are told apart by their numbers. -/
theorem eq_of_id_eq_of_ascending {rows : List Row} (hp : rows.Pairwise (·.id < ·.id)) {r r' : Row} (h : r ∈ rows) (h' : r' ∈ rows)
    (hid : r.id = r'.id) : r = r' := by
  induction rows with
  | nil => cases h
  | cons x rows ih =>
    obtain ⟨hx, hrows⟩ := List.pairwise_cons.mp hp
    rcases List.mem_cons.mp h with e | hr <;> rcases List.mem_cons.mp h' with e' | hr'
    · rw [e, e']
    · exact absurd hid (e ▸ Int.ne_of_lt (hx _ hr'))
    · exact absurd hid (e' ▸ Int.ne_of_gt (hx _ hr))
    · exact ih hrows hr hr'

/-- The numbers of a table tell its rows apart. -/
theorem eq_of_id_eq {t : Table} {r r' : Row} (h : r ∈ t.rows) (h' : r' ∈ t.rows) (hid : r.id = r'.id) : r = r' :=
  eq_of_id_eq_of_ascending t.ascending h h' hid

/-- No number is that of two rows. -/
theorem nodup_ids (t : Table) : (t.rows.map (·.id)).Nodup :=
  List.pairwise_map.mpr (t.ascending.imp fun h => Int.ne_of_lt h)

theorem nodup_rows (t : Table) : t.rows.Nodup := by
  refine List.Pairwise.imp (fun {a b} h e => ?_) t.ascending
  rw [e] at h
  exact Int.lt_irrefl _ h

/-- Choosing one row alone finds it alone. -/
theorem filter_eq_singleton {t : Table} {r : Row} {p : Row → Bool} (hr : r ∈ t.rows)
    (hp : ∀ x ∈ t.rows, p x = true ↔ x = r) : t.rows.filter p = [r] := by
  have hsame : t.rows.filter p = t.rows.filter (· = r) := List.filter_congr fun x hx => by
    rw [Bool.eq_iff_iff, hp x hx, decide_eq_true_eq]
  rw [hsame, List.filter_eq, List.count_eq_one_of_mem t.nodup_rows hr]
  rfl

/-- A number finds a row exactly if it is the number of one. -/
theorem isSome_row?_iff {t : Table} {id : Int} : (t.row? id).isSome ↔ id ∈ t.rows.map (·.id) := by
  simp [row?, List.find?_isSome]

/-! ## Adding a row -/

/-- A row whose number is greater than all others goes to the end. -/
theorem insertRow_eq_append {r : Row} {rows : List Row} (h : ∀ x ∈ rows, x.id < r.id) : insertRow r rows = rows ++ [r] := by
  induction rows with
  | nil => rfl
  | cons x rows ih =>
    have hx := h x (by simp)
    rw [insertRow, if_neg (by omega), ih fun y hy => h y (by simp [hy])]
    rfl

/-- Adding a row succeeds if its number is free, and puts it among the others. -/
theorem insert?_eq_some {t new : Table} {r : Row} {hr : r.Shaped t.layout} (h : t.insert? r hr = some new) :
    new.layout = t.layout ∧ new.rows = insertRow r t.rows ∧ ∀ x ∈ t.rows, x.id ≠ r.id := by
  unfold insert? at h
  split at h
  next hfree =>
    cases h
    exact ⟨rfl, rfl, hfree⟩
  next => cases h

/-- A row whose number is greater than all others can be added, at the end. -/
theorem exists_insert? {t : Table} {r : Row} (hr : r.Shaped t.layout) (h : ∀ x ∈ t.rows, x.id < r.id) :
    ∃ new, t.insert? r hr = some new ∧ new.layout = t.layout ∧ new.rows = t.rows ++ [r] := by
  have hfree : ∀ x ∈ t.rows, x.id ≠ r.id := fun x hx => Int.ne_of_lt (h x hx)
  unfold insert?
  rw [dif_pos hfree]
  exact ⟨_, rfl, rfl, insertRow_eq_append h⟩

/-- The rows after an insertion are those before and the new one. -/
theorem mem_of_insert? {t new : Table} {r x : Row} {hr : r.Shaped t.layout} (h : t.insert? r hr = some new) :
    x ∈ new.rows ↔ x = r ∨ x ∈ t.rows := by
  rw [(insert?_eq_some h).2.1, mem_insertRow]

/-! ## The next number -/

/-- The last row has the greatest number. -/
theorem le_last {t : Table} {r : Row} (h : t.rows.getLast? = some r) {x : Row} (hx : x ∈ t.rows) : x.id ≤ r.id := by
  obtain ⟨rows, hrows⟩ := List.getLast?_eq_some_iff.mp h
  have hasc := t.ascending
  rw [hrows] at hx hasc
  rcases List.mem_append.mp hx with hx | hx
  · exact Int.le_of_lt ((List.pairwise_append.mp hasc).2.2 x hx r (by simp))
  · exact Int.le_of_eq (congrArg Row.id (List.mem_singleton.mp hx))

/-- Of the numbers from 1 up to one more than the count of rows, some is free. -/
theorem exists_free (t : Table) : ∃ k < t.rows.length + 1, ∀ x ∈ t.rows, x.id ≠ (k : Int) + 1 := by
  by_contra hnone
  push Not at hnone
  have hsub : (List.range (t.rows.length + 1)).map (fun (k : Nat) => (k : Int) + 1) ⊆ t.rows.map (·.id) := by
    intro id hid
    obtain ⟨k, hk, rfl⟩ := List.mem_map.mp hid
    obtain ⟨x, hx, hxid⟩ := hnone k (List.mem_range.mp hk)
    exact List.mem_map.mpr ⟨x, hx, hxid⟩
  have hnodup : ((List.range (t.rows.length + 1)).map fun (k : Nat) => (k : Int) + 1).Nodup :=
    List.nodup_range.map fun a b h => Int.ofNat_inj.mp ((Int.add_left_inj 1).mp h)
  have hle := (List.subperm_of_subset hnodup hsub).length_le
  simp only [List.length_map, List.length_range] at hle
  omega

/-- The next number is free. -/
theorem nextId_free (t : Table) : ∀ x ∈ t.rows, x.id ≠ t.nextId := by
  intro x hx
  unfold nextId
  cases hl : t.rows.getLast? with
  | none =>
    rw [List.getLast?_eq_none_iff.mp hl] at hx
    cases hx
  | some r =>
    have hle := le_last hl hx
    simp only
    split
    · omega
    · cases hfind : ((List.range (t.rows.length + 1)).map fun (k : Nat) => (k : Int) + 1).find?
          (fun n => t.rows.all (·.id ≠ n)) with
      | none =>
        obtain ⟨k, hk, hfree⟩ := t.exists_free
        refine absurd ?_ (List.find?_eq_none.mp hfind _ (List.mem_map_of_mem (List.mem_range.mpr hk)))
        simpa using hfree
      | some n =>
        have hfree := List.find?_some hfind
        rw [Option.getD_some]
        exact of_decide_eq_true (List.all_eq_true.mp hfree x hx)

/-- Whether the numbers of a table are 1, 2, 3 and so on, none left out. -/
def Gapless (t : Table) : Prop := t.rows.map (·.id) = (List.range t.rows.length).map fun (k : Nat) => (k : Int) + 1

/-- Without gaps the numbers are those from 1 up to the count of the rows. -/
theorem Gapless.mem_iff {t : Table} (h : t.Gapless) {id : Int} :
    id ∈ t.rows.map (·.id) ↔ 1 ≤ id ∧ id ≤ t.rows.length := by
  rw [h, List.mem_map]
  constructor
  · rintro ⟨k, hk, rfl⟩
    have := List.mem_range.mp hk
    omega
  · rintro ⟨h1, h2⟩
    exact ⟨id.toNat - 1, List.mem_range.mpr (by omega), by omega⟩

/-- Where no number is left out the next one is the count of rows and one. This holds past the greatest number too: the
first free number is sought from 1 upwards. -/
theorem Gapless.nextId_eq {t : Table} (h : t.Gapless) : t.nextId = t.rows.length + 1 := by
  have hmem : ∀ id : Int, t.rows.all (·.id ≠ id) = true ↔ ¬(1 ≤ id ∧ id ≤ t.rows.length) := by
    intro id
    rw [← h.mem_iff]
    simp only [List.all_eq_true, decide_eq_true_eq, List.mem_map, not_exists, not_and]
  unfold nextId
  cases hl : t.rows.getLast? with
  | none => simp [List.getLast?_eq_none_iff.mp hl]
  | some r =>
    have hr : r.id = t.rows.length := by
      obtain ⟨rows, hrows⟩ := List.getLast?_eq_some_iff.mp hl
      have hids := h
      unfold Gapless at hids
      rw [hrows] at hids
      simp only [List.map_append, List.map_cons, List.map_nil, List.length_append, List.length_cons, List.length_nil,
        Nat.zero_add, List.range_succ] at hids
      have := List.append_inj_right' hids rfl
      simp only [List.cons.injEq, and_true] at this
      simp [this, hrows]
    simp only
    split
    · omega
    · -- all numbers up to the count are taken and the one after it is free
      have hfind : ((List.range (t.rows.length + 1)).map fun (k : Nat) => (k : Int) + 1).find?
          (fun n => t.rows.all (·.id ≠ n)) = some ((t.rows.length : Int) + 1) := by
        rw [List.range_succ, List.map_append, List.find?_append, List.find?_eq_none.mpr]
        · have hlast : t.rows.all (·.id ≠ (t.rows.length : Int) + 1) = true := (hmem _).mpr (by omega)
          rw [Option.none_or]
          exact List.find?_cons_of_pos hlast
        · intro n hn
          obtain ⟨k, hk, rfl⟩ := List.mem_map.mp hn
          have := List.mem_range.mp hk
          rw [hmem]
          omega
      rw [hfind, Option.getD_some]

/-- A row of the next number goes to the end and leaves no gap. -/
theorem Gapless.insert? {t new : Table} {r : Row} {hr : r.Shaped t.layout} (h : t.Gapless) (hid : r.id = t.nextId)
    (hi : t.insert? r hr = some new) : new.rows = t.rows ++ [r] ∧ new.Gapless := by
  rw [h.nextId_eq] at hid
  have hlast : new.rows = t.rows ++ [r] := by
    rw [(insert?_eq_some hi).2.1]
    refine insertRow_eq_append ?_
    intro x hx
    have := (h.mem_iff.mp (List.mem_map_of_mem hx)).2
    omega
  refine ⟨hlast, ?_⟩
  unfold Gapless at h ⊢
  simp only [hlast, List.map_append, List.map_cons, List.map_nil, List.length_append, List.length_cons, List.length_nil,
    Nat.zero_add, List.range_succ, h, hid]

/-! ## Changing rows -/

/-- Numbers stay when rows are changed. -/
@[simp] theorem modify_ids (t : Table) (p : Row → Bool) (f : String → Cell → Cell) :
    (t.modify p f).rows.map (·.id) = t.rows.map (·.id) := by
  rw [rows_modify, List.map_map]
  refine List.map_congr_left ?_
  intro r _
  simp only [Function.comp_apply]
  split <;> rfl

/-- A table is its layout and its rows. -/
theorem ext {t t' : Table} (hl : t.layout = t'.layout) (hr : t.rows = t'.rows) : t = t' := by
  cases t
  cases t'
  cases hl
  cases hr
  rfl

/-- A table no row of which is chosen stays as it is. -/
theorem modify_eq_self {t : Table} {p : Row → Bool} {f : String → Cell → Cell}
    (h : ∀ r ∈ t.rows, p r = false) : t.modify p f = t := by
  refine ext rfl ?_
  rw [rows_modify]
  conv => rhs; rw [← List.map_id t.rows]
  refine List.map_congr_left ?_
  intro r hr
  simp [h r hr]

/-- Changes of the rows of two numbers can be made in either order. -/
theorem modify_comm {a b : Int} (hab : a ≠ b) (t : Table) (f g : String → Cell → Cell) :
    (t.modify (·.id = a) f).modify (·.id = b) g = (t.modify (·.id = b) g).modify (·.id = a) f := by
  refine ext rfl ?_
  simp only [rows_modify, List.map_map]
  refine List.map_congr_left fun r _ => ?_
  by_cases ha : r.id = a
  · simp [ha, hab]
  · by_cases hb : r.id = b <;> simp [ha, hb, hab.symm]

/-- A change of the row of another number leaves what a number finds. -/
theorem row?_modify {a b : Int} (hab : a ≠ b) (t : Table) (f : String → Cell → Cell) :
    (t.modify (·.id = b) f).row? a = t.row? a := by
  unfold row?
  rw [rows_modify]
  induction t.rows with
  | nil => rfl
  | cons r rows ih =>
    rw [List.map_cons, List.find?_cons, List.find?_cons, ih]
    by_cases hb : r.id = b
    · simp [hb, hab.symm]
    · simp [hb]

/-- A change of the rows of a table depends on the rows that are there alone. -/
theorem modify_congr {t : Table} {p q : Row → Bool} (h : ∀ r ∈ t.rows, p r = q r)
    (f : String → Cell → Cell) : t.modify p f = t.modify q f := by
  refine ext rfl ?_
  rw [rows_modify, rows_modify]
  exact List.map_congr_left fun r hr => by rw [h r hr]

/-- A row that took the place of another one of its number stands where that stood. -/
theorem insertRow_filter {r x : Row} (hx : x.id = r.id) {rows : List Row} (h : rows.Pairwise (·.id < ·.id)) (hr : r ∈ rows) :
    insertRow x (rows.filter (·.id ≠ r.id)) = rows.map fun y => if y.id = r.id then x else y := by
  induction rows with
  | nil => cases hr
  | cons y rows ih =>
    obtain ⟨hy, hrows⟩ := List.pairwise_cons.mp h
    rcases List.mem_cons.mp hr with rfl | hr
    · -- all rows after it have greater numbers
      have hkept : rows.filter (·.id ≠ r.id) = rows :=
        List.filter_eq_self.mpr fun z hz => decide_eq_true (Int.ne_of_gt (hy z hz))
      have hsame : (rows.map fun y => if y.id = r.id then x else y) = rows := by
        conv => rhs; rw [← List.map_id rows]
        exact List.map_congr_left fun z hz => if_neg (Int.ne_of_gt (hy z hz))
      rw [List.filter_cons_of_neg (by simp), hkept, List.map_cons, if_pos rfl, hsame]
      cases rows with
      | nil => rfl
      | cons z rows =>
        have hz := hy z (by simp)
        rw [insertRow, if_pos (by omega)]
    · have hlt := hy r hr
      rw [List.filter_cons_of_pos (by simpa using Int.ne_of_lt hlt), insertRow, if_neg (by omega), ih hrows hr, List.map_cons,
        if_neg (Int.ne_of_lt hlt)]

/-- The row of a number is found by it. -/
theorem row?_eq_some {t : Table} {r : Row} (hr : r ∈ t.rows) : t.row? r.id = some r := by
  obtain ⟨x, hx⟩ := Option.isSome_iff_exists.mp (isSome_row?_iff.mpr (List.mem_map_of_mem (f := (·.id)) hr))
  have hid : x.id = r.id := by simpa using List.find?_some hx
  rw [hx, eq_of_id_eq (List.mem_of_find?_eq_some hx) hr hid]

/-! ## Putting a row among others -/

section

variable {t new : Table} {r x : Row} {hr : r.Shaped t.layout} {clause : Column → Clause} {columns : List Column}

/-- A row that is put among others has no rival that stays, and all rows stay that do not give way to it. -/
theorem place_eq_ok (h : t.place r hr clause columns = .ok new) : t.rival? r clause columns = none ∧ new.layout = t.layout ∧
    new.rows = insertRow r (t.rows.filter fun x => !givesWay r clause columns x) := by
  unfold place at h
  split at h
  · cases h
  next hnone =>
    cases h
    exact ⟨hnone, rfl, rfl⟩

/-- The rows after one is put are that row and those that do not give way to it. -/
theorem mem_of_place (h : t.place r hr clause columns = .ok new) :
    x ∈ new.rows ↔ x = r ∨ x ∈ t.rows ∧ givesWay r clause columns x = false := by
  rw [(place_eq_ok h).2.2, mem_insertRow, List.mem_filter]
  simp

/-- Where no columns are looked at, a row takes the place of that of its number. -/
@[simp] theorem place_nil (t : Table) (hr : r.Shaped t.layout) (clause : Column → Clause) :
    ∃ new, t.place r hr clause [] = .ok new ∧ new.layout = t.layout ∧ new.rows = insertRow r (t.rows.filter (·.id ≠ r.id)) := by
  refine ⟨_, rfl, rfl, ?_⟩
  exact congrArg (insertRow r) (List.filter_congr fun x _ => by simp [givesWay])

end

/-! ## Rows that get the next number -/

/-- The table with one more row, under the next number, if the cells are those of a row of its shape. -/
def grow (t : Table) (cells : List (String × Cell)) : Table :=
  if h : cells.map (·.1) = t.layout.cellNames then t.insert ⟨t.nextId, cells⟩ h t.nextId_free else t

@[simp] theorem layout_grow (t : Table) (cells : List (String × Cell)) : (t.grow cells).layout = t.layout := by
  unfold grow
  split <;> rfl

/-- A table that grows has one row more, under the next number. -/
theorem rows_grow {t : Table} {cells : List (String × Cell)} (h : cells.map (·.1) = t.layout.cellNames) :
    (t.grow cells).rows = insertRow ⟨t.nextId, cells⟩ t.rows := by
  unfold grow
  rw [dif_pos h]
  rfl

/-- An insertion under the next number is such a growth. -/
theorem eq_grow {t new : Table} {cells : List (String × Cell)} {hr : Row.Shaped ⟨t.nextId, cells⟩ t.layout}
    (h : t.insert? ⟨t.nextId, cells⟩ hr = some new) : new = t.grow cells := by
  obtain ⟨hlayout, hrows, -⟩ := insert?_eq_some h
  exact ext (hlayout.trans (t.layout_grow cells).symm) (hrows.trans (rows_grow hr).symm)

/-- A row that is put in order is added to the others. -/
theorem insertRow_perm (r : Row) (rows : List Row) : (insertRow r rows).Perm (r :: rows) := by
  induction rows with
  | nil => exact .refl _
  | cons x rows ih =>
    rw [insertRow]
    split
    · exact .refl _
    · exact (ih.cons x).trans (.swap r x rows)

/-- The next number depends on the numbers that are taken alone. -/
theorem nextId_congr {t u : Table} (h : t.rows.map (·.id) = u.rows.map (·.id)) : t.nextId = u.nextId := by
  have heq : ∀ v : Table, v.nextId = match (v.rows.map (·.id)).getLast? with
      | none => 1
      | some n => if n < lastId then n + 1 else
        (((List.range ((v.rows.map (·.id)).length + 1)).map fun (k : Nat) => (k : Int) + 1).find? fun n =>
          (v.rows.map (·.id)).all (· ≠ n)).getD 1 := by
    intro v
    unfold nextId
    rw [List.getLast?_map, List.length_map]
    simp only [List.all_map]
    cases v.rows.getLast? <;> rfl
  rw [heq t, heq u, h]

/-- Where rows with the same numbers stand is decided by their numbers. -/
theorem ids_insertRow {r x : Row} (hid : r.id = x.id) {rows rows' : List Row} (h : rows.map (·.id) = rows'.map (·.id)) :
    (insertRow r rows).map (·.id) = (insertRow x rows').map (·.id) := by
  induction rows generalizing rows' with
  | nil =>
    cases rows' with
    | nil => simp [insertRow, hid]
    | cons y rows' => cases h
  | cons z rows ih =>
    cases rows' with
    | nil => cases h
    | cons y rows' =>
      obtain ⟨hzy, hrest⟩ := List.cons.inj h
      simp only [insertRow, hid, hzy]
      split
      · simp [hid, hzy, hrest]
      · simp [hzy, ih hrest]

/-- The table with one more row for each of some lists of cells. -/
def addAll (t : Table) (written : List (List (String × Cell))) : Table := written.foldl grow t

@[simp] theorem layout_addAll (t : Table) (written : List (List (String × Cell))) : (t.addAll written).layout = t.layout := by
  induction written generalizing t with
  | nil => rfl
  | cons cells written ih => exact (ih (t.grow cells)).trans (t.layout_grow cells)

/-- Rows that are added one after the other may be added in two goes. -/
theorem addAll_append (t : Table) (written more : List (List (String × Cell))) :
    (t.addAll written).addAll more = t.addAll (written ++ more) := List.foldl_append.symm

/-- Where the same numbers are taken and as many rows are added, the added rows get the same numbers, one after the other. -/
theorem exists_added {t u : Table} (hids : t.rows.map (·.id) = u.rows.map (·.id)) {xs ys : List (List (String × Cell))}
    (hlength : xs.length = ys.length) (hxs : ∀ cells ∈ xs, cells.map (·.1) = t.layout.cellNames)
    (hys : ∀ cells ∈ ys, cells.map (·.1) = u.layout.cellNames) : ∃ added added' : List Row,
      (t.addAll xs).rows.Perm (t.rows ++ added) ∧ (u.addAll ys).rows.Perm (u.rows ++ added') ∧
      added.map (·.cells) = xs ∧ added'.map (·.cells) = ys ∧ added.map (·.id) = added'.map (·.id) := by
  induction xs generalizing t u ys with
  | nil =>
    cases List.length_eq_zero_iff.mp hlength.symm
    exact ⟨[], [], by simp [addAll], by simp [addAll], rfl, rfl, rfl⟩
  | cons x xs ih =>
    obtain _ | ⟨y, ys⟩ := ys
    · cases hlength
    · obtain ⟨hx, hxs⟩ := List.forall_mem_cons.mp hxs
      obtain ⟨hy, hys⟩ := List.forall_mem_cons.mp hys
      have hnext : t.nextId = u.nextId := nextId_congr hids
      have hgrown : (t.grow x).rows.map (·.id) = (u.grow y).rows.map (·.id) := by
        rw [rows_grow hx, rows_grow hy]
        exact ids_insertRow hnext hids
      obtain ⟨added, added', hperm, hperm', rfl, rfl, hsame⟩ := ih hgrown (Nat.succ.inj hlength)
        (fun cells hcells => (hxs cells hcells).trans (by rw [layout_grow]))
        (fun cells hcells => (hys cells hcells).trans (by rw [layout_grow]))
      have hfirst : ∀ {v : Table} {cells : List (String × Cell)}, cells.map (·.1) = v.layout.cellNames → ∀ more : List Row,
          ((v.grow cells).rows ++ more).Perm (v.rows ++ ⟨v.nextId, cells⟩ :: more) := by
        intro v cells hcells more
        rw [rows_grow hcells]
        exact ((insertRow_perm _ _).append_right more).trans List.perm_middle.symm
      exact ⟨⟨t.nextId, x⟩ :: added, ⟨u.nextId, y⟩ :: added', hperm.trans (hfirst hx added),
        hperm'.trans (hfirst hy added'), rfl, rfl, by simp [hnext, hsame]⟩

end Table

namespace Database

/-! ## Tables by name -/

/-- The rows of a table; none if there is no such table. -/
def rows (db : Database) (name : String) : List Row := ((db.table? name).map (·.rows)).getD []

/-- A table that is found under a name has that name. -/
theorem name_of_table? {db : Database} {name : String} {t : Table} (h : db.table? name = some t) : t.name = name := by
  simpa using List.find?_some h

/-- The rows under a name are those of the table that is found. -/
theorem rows_of_table? {db : Database} {name : String} {t : Table} (h : db.table? name = some t) : db.rows name = t.rows := by
  simp [rows, h]

/-- The rows of a name are told apart by their numbers. -/
theorem rows_eq_of_id_eq {db : Database} {name : String} {r r' : Row} (h : r ∈ db.rows name) (h' : r' ∈ db.rows name)
    (hid : r.id = r'.id) : r = r' := by
  unfold rows at h h'
  cases ht : db.table? name with
  | none => rw [ht] at h; cases h
  | some t =>
    rw [ht] at h h'
    exact Table.eq_of_id_eq (t := t) h h' hid

/-- Choosing one row of a name alone finds it alone. -/
theorem filter_rows_eq_singleton {db : Database} {name : String} {r : Row} {p : Row → Bool} (hr : r ∈ db.rows name)
    (hp : ∀ x ∈ db.rows name, p x = true ↔ x = r) : (db.rows name).filter p = [r] := by
  unfold rows at hr hp ⊢
  cases ht : db.table? name with
  | none => rw [ht] at hr; cases hr
  | some t =>
    rw [ht] at hr hp
    exact Table.filter_eq_singleton (t := t) hr hp

/-- The rows under a name depend on that table alone. -/
theorem rows_congr {db db' : Database} {name : String} (h : db'.table? name = db.table? name) :
    db'.rows name = db.rows name := by
  unfold rows
  rw [h]

/-- A table is there for a statement if it is found under its name. -/
theorem need_eq_ok {db : Database} {name : String} {t : Table} : db.need name = .ok t ↔ db.table? name = some t := by
  unfold need
  cases db.table? name <;> simp

/-- After a table is put, a name means it or what it meant before. -/
theorem table?_put (db : Database) (t : Table) (name : String) :
    (db.put t).table? name = (db.table? name).map fun u => if u.name = t.name then t else u := by
  unfold put table?
  rw [List.find?_map]
  congr 2
  funext u
  simp only [Function.comp_apply]
  split
  next h => rw [h]
  next => rfl

/-- A table that is put in the place of one of its name is found under it. -/
theorem table?_put_self {db : Database} {t u : Table} (h : db.table? t.name = some u) : (db.put t).table? t.name = some t := by
  rw [table?_put, h, Option.map_some, if_pos (name_of_table? h)]

/-- Of two tables of one name the one counts that is put last. -/
theorem put_put {db : Database} {t u : Table} (h : t.name = u.name) : (db.put t).put u = db.put u := by
  unfold put
  simp only [List.map_map]
  congr 1
  refine List.map_congr_left fun x _ => ?_
  by_cases hx : x.name = u.name <;> simp [h, hx]

/-- Other names find what they found. -/
@[simp] theorem table?_put_of_ne {db : Database} {t : Table} {name : String} (h : name ≠ t.name) :
    (db.put t).table? name = db.table? name := by
  rw [table?_put]
  cases hu : db.table? name with
  | none => rfl
  | some u => rw [Option.map_some, name_of_table? hu, if_neg h]

/-- Putting the table that a name means already changes nothing that a name means. -/
theorem table?_put_same {db : Database} {t : Table} (h : db.table? t.name = some t) (name : String) :
    (db.put t).table? name = db.table? name := by
  by_cases hn : name = t.name
  · rw [hn, table?_put_self h, h]
  · exact table?_put_of_ne hn

end Database
end ReviewQueue
