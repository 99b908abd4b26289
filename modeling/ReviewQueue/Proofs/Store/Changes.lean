import ReviewQueue.Proofs.Store.Tables
import ReviewQueue.Store.Connection

/-!
# Changing rows

A change is plain if it gives cells only to columns that are no key, refer to no table and may repeat. A plain change
cannot fail once its cells are right by themselves: it gives its cells to the rows it chooses, and nothing else happens.
-/

namespace ReviewQueue

namespace Cell

/-- Cells other than numbers stand at one place only if they are the same. -/
theorem same_eq {a b : Cell} (h : 2 ≤ b.rank) : same a b = decide (a = b) := by
  cases b with
  | null | int n | real x => cases a <;> simp [rank] at h
  | text s | blob s => cases a <;> simp [same, equal]

/-- So they are equal for the order of cells. -/
theorem equal_eq {a b : Cell} (h : 2 ≤ b.rank) : equal a b = decide (a = b) := by
  cases b with
  | null | int n | real x => cases a <;> simp [rank] at h
  | text s | blob s => cases a <;> simp [equal]

/-- Integers are the same if they are equal. -/
@[simp] theorem same_int (m n : Int) : same (.int m) (.int n) = decide (m = n) := by simp [same, equal]

/-- Whether a cell is the same as an integer does not depend on which comes first. -/
theorem same_int_comm (n : Int) (a : Cell) : same (.int n) a = same a (.int n) := by
  cases a with
  | int m => rw [same_int, same_int, decide_eq_decide, eq_comm]
  | real x => simp only [same, equal, ne_eq, reduceCtorEq, not_false_eq_true, decide_true, Bool.true_and, Bool.and_comm]
  | null | text | blob => rfl

/-- A cell stands at the place of one integer at most. -/
theorem same_int_inj {a : Cell} {m n : Int} (hm : same a (.int m) = true) (hn : same a (.int n) = true) : m = n := by
  cases a with
  | int k => exact (of_decide_eq_true (same_int k m ▸ hm)).symm.trans (of_decide_eq_true (same_int k n ▸ hn))
  | real x =>
    have hsame : ∀ k : Int, same (.real x) (.int k) = true → k * x.denominator = x.numerator := by
      intro k hk
      simp only [same, equal, Double.leToInt, Double.leOfInt, Bool.and_eq_true, decide_eq_true_eq] at hk
      exact Int.le_antisymm hk.2.2 hk.2.1
    have hpos : (x.denominator : Int) ≠ 0 := Int.natCast_ne_zero.mpr (Nat.ne_of_gt x.denominator_pos)
    exact Int.eq_of_mul_eq_mul_right hpos ((hsame m hm).trans (hsame n hn).symm)
  | null | text | blob => simp [same, equal] at hm

/-- A cell stands at its own place. -/
@[simp] theorem equal_self (a : Cell) : equal a a = true := by cases a <;> simp [equal]

/-- A cell that is not null stands at its own place. -/
theorem same_self {a : Cell} (h : a ≠ .null) : same a a = true := by
  cases a <;> simp_all [same, equal]

end Cell

namespace Layout

/-- Whether a column is given a cell is decided by the names. -/
theorem isGiven_eq (cells : List (String × Cell)) (c : Column) :
    isGiven cells c = (cells.map (·.1)).any (c.answersTo ·) := by
  simp [isGiven, List.any_map, Function.comp_def]

/-- Null stays null unless the column says otherwise. -/
theorem settle_eq {c : Column} (h : c.onNull ≠ .replace) (x : Cell) : c.settle x = x := if_neg fun hc => h hc.2.2

/-- The first cell given for a column counts. -/
theorem cellFor_cons_eq_settle {c : Column} {name : String} (h : c.answersTo name = true) (x : Cell) (cells : List (String × Cell)) :
    cellFor ((name, x) :: cells) c = c.settle (x.asKind c.kind) := by
  unfold cellFor
  rw [List.find?_cons_of_pos (by exact h)]
  rfl

/-- A column that keeps no default in place of nothing gets the first cell that is given for it. -/
theorem cellFor_cons {c : Column} {name : String} (h : c.answersTo name = true) (hnull : c.onNull ≠ .replace) (x : Cell)
    (cells : List (String × Cell)) : cellFor ((name, x) :: cells) c = x.asKind c.kind := by
  rw [cellFor_cons_eq_settle h, settle_eq hnull]

/-- Cells stop no row if those of required columns are not null and each is among the words of its column. -/
theorem stop?_eq_none_iff {l : Layout} {g : Guard} {cells : List (String × Cell)} {columns : List Column} :
    l.stop? g cells columns = none ↔ ∀ c ∈ columns, (c.required = true → cellFor cells c ≠ .null) ∧
      (g.words = true → c.admits (cellFor cells c) = true) := by
  unfold stop?
  split
  next c hc =>
    have hnull := List.find?_some hc
    rw [Bool.and_eq_true, decide_eq_true_eq] at hnull
    simp only [reduceCtorEq, false_iff]
    exact fun h => (h c (List.mem_of_find?_eq_some hc)).1 hnull.1 hnull.2
  next hnull =>
    rw [Option.map_eq_none_iff, List.find?_eq_none]
    rw [List.find?_eq_none] at hnull
    simp only [Bool.and_eq_true, Bool.not_eq_true', decide_eq_true_eq, not_and, Bool.not_eq_false] at hnull ⊢
    exact ⟨fun h c hc => ⟨hnull c hc, h c hc⟩, fun h c hc => (h c hc).2⟩

/-- Whether each of some names means a column. -/
def knows (l : Layout) (names : List String) : Bool := names.all fun name => (l.column? name).isSome

theorem unknown_eq_nil {l : Layout} {names : List String} (h : l.knows names = true) : l.unknown names = [] := by
  unfold unknown
  rw [List.filterMap_eq_nil_iff]
  intro name hname
  rw [if_pos (List.all_eq_true.mp h name hname)]

/-- Whether cells can be given under some names without a look at other rows or tables. -/
def isPlain (l : Layout) (names : List String) : Bool :=
  l.columns.all fun c => !names.any (c.answersTo ·) || !(c.isKey || c.unique || c.parent.isSome || c.answersTo "id")

/-- The columns that a plain change gives cells to are no keys, not unique, and no references. -/
theorem isPlain_given {l : Layout} {cells : List (String × Cell)} (h : l.isPlain (cells.map (·.1)) = true) {c : Column}
    (hc : c ∈ l.columns) (hg : isGiven cells c = true) :
    c.isKey = false ∧ c.unique = false ∧ c.parentName = none ∧ c.answersTo "id" = false := by
  have hplain := List.all_eq_true.mp h c hc
  rw [← isGiven_eq, hg] at hplain
  simpa [Column.parentName, and_assoc] using hplain

/-- The columns that refer to a table are columns of the layout. -/
theorem mem_references {l : Layout} {c : Column} {parent : String} :
    (c, parent) ∈ l.references ↔ c ∈ l.columns ∧ c.parentName = some parent := by
  unfold references
  rw [List.mem_filterMap]
  constructor
  · rintro ⟨x, hx, hxc⟩
    obtain ⟨p, hp, hpc⟩ := Option.map_eq_some_iff.mp hxc
    cases hpc
    exact ⟨List.mem_reverse.mp hx, hp⟩
  · rintro ⟨hc, hp⟩
    exact ⟨c, List.mem_reverse.mpr hc, by rw [hp, Option.map_some]⟩

end Layout

namespace Row

@[simp] theorem given_id (r : Row) (l : Layout) (cells : List (String × Cell)) : (r.given l cells).id = r.id := rfl

/-- What is found under a name once each cell is made from the one there was. -/
theorem lookup_mapCells (f : String → Cell → Cell) (r : Row) (name : String) :
    (r.mapCells f).cells.lookup name = (r.cells.lookup name).map (f name) := by
  unfold mapCells
  dsimp only
  induction r.cells with
  | nil => rfl
  | cons entry old ih =>
    rw [List.map_cons, List.lookup_cons, List.lookup_cons, ih]
    by_cases hn : name = entry.1
    · subst hn
      simp
    · have hne : (name == entry.1) = false := by simp [hn]
      rw [hne]

/-- A row that is given cells keeps the names of its cells. -/
@[simp] theorem given_names (r : Row) (l : Layout) (cells : List (String × Cell)) :
    (r.given l cells).cells.map (·.1) = r.cells.map (·.1) := by
  unfold given mapCells
  rw [List.map_map]
  rfl

/-- A column that is given no cell keeps its own. -/
theorem cell_given_of_not_given {l : Layout} {cells : List (String × Cell)} {name : String} (r : Row)
    (h : l.columns.find? (fun c => c.name = name && !c.isKey && Layout.isGiven cells c) = none) :
    (r.given l cells).cell name = r.cell name := by
  unfold cell given
  rw [lookup_mapCells]
  cases r.cells.lookup name with
  | none => rfl
  | some old => rw [Option.map_some, Option.getD_some, assign, h, Option.getD_some]

/-- A column that is given a cell has it, if the row has a cell there at all. -/
theorem cell_given {l : Layout} {cells : List (String × Cell)} {name : String} {c : Column} {r : Row}
    (h : l.columns.find? (fun c => c.name = name && !c.isKey && Layout.isGiven cells c) = some c)
    (hr : (r.cells.lookup name).isSome) : (r.given l cells).cell name = Layout.cellFor cells c := by
  obtain ⟨old, hold⟩ := Option.isSome_iff_exists.mp hr
  unfold cell given
  rw [lookup_mapCells, hold, Option.map_some, Option.getD_some, assign, h]

/-- Which column is given a cell under a name depends on the names alone. -/
theorem find?_given (l : Layout) {cells : List (String × Cell)} {names : List String} (h : cells.map (·.1) = names)
    (name : String) : l.columns.find? (fun c => c.name = name && !c.isKey && Layout.isGiven cells c) =
      l.columns.find? (fun c => c.name = name && !c.isKey && names.any (c.answersTo ·)) := by
  simp only [Layout.isGiven_eq, h]

/-- A row has a cell wherever it does not read as null. -/
theorem isSome_lookup_of_cell_ne_null {r : Row} {name : String} (h : r.cell name ≠ .null) : (r.cells.lookup name).isSome := by
  unfold cell at h
  cases hl : r.cells.lookup name with
  | none => rw [hl] at h; exact absurd rfl h
  | some c => rfl

/-! ## Choosing rows -/

/-- Null is had by no row. -/
@[simp] theorem has_null (r : Row) (c : Column) : r.has c .null = false := by
  have hnull : Cell.null.asKind c.kind.sought = .null := by cases c.kind.sought <;> rfl
  unfold has
  rw [hnull]
  cases h : r.get c <;> simp [Cell.same, Cell.equal]

/-- A row has its number in the key. -/
theorem has_key {c : Column} (hk : c.isKey = true) (r : Row) (id : Int) : r.has c (.int id) = decide (r.id = id) := by
  have hkind : c.kind = .key := of_decide_eq_true hk
  unfold has
  rw [get_of_isKey r hk, hkind]
  simp [Cell.same, Cell.equal, Cell.asKind, Cell.Kind.sought, Cell.asNumber]

/-- A row has a cell that is no number if it is the row's cell in that column. -/
theorem has_eq {c : Column} (hk : c.isKey = false) (r : Row) {x : Cell} (hx : 2 ≤ (x.asKind c.kind.sought).rank) :
    r.has c x = decide (r.cell c.name = x.asKind c.kind.sought) := by
  unfold has
  rw [get_of_isKey_false r hk, Cell.same_eq hx]

@[simp] theorem hasAll_nil (r : Row) (l : Layout) : r.hasAll l [] = true := rfl

/-- A row has some cells if it has the first and the others. -/
theorem hasAll_cons {l : Layout} {name : String} {c : Column} (hc : l.column? name = some c) (r : Row) (x : Cell)
    (cells : List (String × Cell)) : r.hasAll l ((name, x) :: cells) = (r.has c x && r.hasAll l cells) := by
  unfold hasAll
  simp only [List.all_cons, hc, Option.any_some]

/-- A row has one cell that is no number if it is the row's cell in that column. -/
theorem hasAll_singleton {l : Layout} {name : String} {c : Column} (hc : l.column? name = some c) (hk : c.isKey = false)
    (r : Row) {x : Cell} (hx : 2 ≤ (x.asKind c.kind.sought).rank) :
    r.hasAll l [(name, x)] = decide (r.cell c.name = x.asKind c.kind.sought) := by
  rw [hasAll_cons hc, hasAll_nil, Bool.and_true, has_eq hk r hx]

end Row

namespace Change

/-- The rows that a change chooses with its cells given, and the table with them in their places. -/
def inPlace (s : Change) (t : Table) : List Row × Table :=
  ((t.rows.filter (·.hasAll t.layout s.having)).map (·.given t.layout s.cells),
    t.modify (·.hasAll t.layout s.having) (Row.assign t.layout s.cells))

theorem inPlace_fst (s : Change) (t : Table) :
    (s.inPlace t).1 = (t.rows.filter (·.hasAll t.layout s.having)).map (·.given t.layout s.cells) := rfl

theorem inPlace_snd_rows (s : Change) (t : Table) :
    (s.inPlace t).2.rows = t.rows.map fun r => if r.hasAll t.layout s.having then r.given t.layout s.cells else r := rfl

/-- A change in place keeps the numbers of the rows. -/
@[simp] theorem inPlace_snd_ids (s : Change) (t : Table) : (s.inPlace t).2.rows.map (·.id) = t.rows.map (·.id) :=
  Table.modify_ids t _ _

/-- A change takes no row away and adds none. -/
@[simp] theorem length_inPlace (s : Change) (t : Table) : (s.inPlace t).2.rows.length = t.rows.length := by
  rw [inPlace_snd_rows, List.length_map]

/-- A change leaves no gap where there was none. -/
theorem gapless_inPlace {t : Table} (h : t.Gapless) (s : Change) : (s.inPlace t).2.Gapless := by
  unfold Table.Gapless
  rw [inPlace_snd_ids, length_inPlace]
  exact h

/-- A change that chooses no row is none. -/
theorem inPlace_of_forall_not {s : Change} {t : Table} (h : ∀ r ∈ t.rows, r.hasAll t.layout s.having = false) :
    s.inPlace t = ([], t) := by
  refine Prod.ext ?_ (Table.modify_eq_self h)
  rw [inPlace_fst, List.filter_eq_nil_iff.mpr (by simpa using h), List.map_nil]

/-- Whether a change is plain, and all its names mean columns. -/
def isPlain (s : Change) (l : Layout) : Bool :=
  l.isPlain (s.cells.map (·.1)) && l.knows (s.cells.map (·.1)) && l.knows (s.having.map (·.1)) && l.knows s.returning

/-- Cells are right by themselves if those of required columns are not null and each is among the words of its
column. -/
theorem cellStop?_eq_none {s : Change} {g : Guard} {l : Layout}
    (h : ∀ c ∈ l.columns, Layout.isGiven s.cells c = true →
      (c.required = true → Layout.cellFor s.cells c ≠ .null) ∧ c.admits (Layout.cellFor s.cells c) = true) :
    s.cellStop? g l = none := by
  refine Layout.stop?_eq_none_iff.mpr fun c hc => ?_
  obtain ⟨hmem, hc⟩ := List.mem_filter.mp hc
  rw [Bool.and_eq_true] at hc
  exact ⟨(h c hmem hc.2).1, fun _ => (h c hmem hc.2).2⟩

variable {s : Change} {l : Layout} {t : Table} {db : Database} {g : Guard}

/-- A plain change is not refused before it runs. -/
theorem faults_eq_nil (ht : db.table? s.table = some t) (hp : s.isPlain t.layout = true) : s.faults g db = [] := by
  simp only [isPlain, Bool.and_eq_true] at hp
  obtain ⟨⟨⟨hplain, hcells⟩, hhaving⟩, hreturning⟩ := hp
  have hrefs : db.faultyReferences t.layout (Layout.isGiven s.cells) = [] := by
    unfold Database.faultyReferences
    rw [List.filterMap_eq_nil_iff]
    rintro ⟨c, parent⟩ hc
    obtain ⟨hmem, hparent⟩ := Layout.mem_references.mp hc
    have hnot : ¬Layout.isGiven s.cells c = true := by
      intro hg
      have := (Layout.isPlain_given hplain hmem hg).2.2.1
      rw [hparent] at this
      cases this
    simp only [if_neg hnot]
  have htouch : s.touchesReferences t.layout = false := by
    unfold touchesReferences
    rw [List.any_eq_false]
    intro c hc
    rw [Bool.and_eq_true]
    rintro ⟨hg, hor⟩
    obtain ⟨hkey, -, hparent, hid⟩ := Layout.isPlain_given hplain hc hg
    have hnone : c.parent = none := Option.map_eq_none_iff.mp hparent
    simp [hkey, hnone, hid] at hor
  unfold faults Database.faultsOn
  rw [ht]
  simp [Layout.unknown_eq_nil hcells, Layout.unknown_eq_nil hhaving, Layout.unknown_eq_nil hreturning, hrefs, htouch]

/-- A plain change gives no cell to a key. -/
theorem find?_key_given (hp : l.isPlain (s.cells.map (·.1)) = true) :
    l.columns.find? (fun c => c.isKey && Layout.isGiven s.cells c) = none := by
  refine List.find?_eq_none.mpr fun c hc => ?_
  rw [Bool.and_eq_true]
  rintro ⟨hk, hg⟩
  have := (Layout.isPlain_given hp hc hg).1
  rw [hk] at this
  cases this

/-- A plain change has no columns in which a row may meet another one. -/
theorem rivalries_eq_nil (hp : l.isPlain (s.cells.map (·.1)) = true) : s.rivalries l = [] := by
  refine List.filter_eq_nil_iff.mpr fun c hc hg => ?_
  have hmem : c ∈ l.columns ∧ (c.isKey = true ∨ c.unique = true) := by
    unfold Layout.rivalries at hc
    simp only [List.mem_append, List.mem_filter, List.mem_reverse, Bool.and_eq_true] at hc
    grind
  obtain ⟨hk, hu, -⟩ := Layout.isPlain_given hp hmem.1 hg
  rcases hmem.2 with h | h
  · rw [h] at hk
    cases hk
  · rw [h] at hu
    cases hu

/-- A plain change gives its cells to a row in its place. -/
theorem changeRow_eq {r : Row} (hp : t.layout.isPlain (s.cells.map (·.1)) = true) (hf : s.cellStop? g t.layout = none)
    (hmem : r ∈ t.rows) (hr : r.Shaped t.layout) : s.changeRow g t r hr =
      .ok (r.given t.layout s.cells, t.modify (·.id = r.id) (Row.assign t.layout s.cells)) := by
  have hnumber : s.number t.layout r = .ok r.id := by
    unfold number
    rw [find?_key_given hp]
  have hsame : ({ r.given t.layout s.cells with id := r.id } : Row) = r.given t.layout s.cells := rfl
  obtain ⟨new, hplace, hlayout, hrows⟩ :=
    (t.remove (·.id = r.id)).place_nil (r := r.given t.layout s.cells) (hr.mapCells _) (·.onRepeat)
  have hnew : new = t.modify (·.id = r.id) (Row.assign t.layout s.cells) := by
    refine Table.ext hlayout ?_
    have honce : ((t.remove (·.id = r.id)).rows.filter fun x => decide (x.id ≠ (r.given t.layout s.cells).id)) =
        t.rows.filter (·.id ≠ r.id) := by
      rw [Table.rows_remove, List.filter_filter]
      exact List.filter_congr fun x _ => by by_cases hx : x.id = r.id <;> simp [hx]
    rw [hrows, honce, Table.insertRow_filter (Row.given_id ..) t.ascending hmem, Table.rows_modify]
    refine List.map_congr_left fun y hy => ?_
    by_cases hid : y.id = r.id
    · rw [if_pos hid, if_pos (decide_eq_true hid), Table.eq_of_id_eq hy hmem hid]
      rfl
    · rw [if_neg hid, if_neg (by simpa using hid)]
  unfold changeRow
  simp only [hnumber, hf, rivalries_eq_nil hp, hsame]
  exact (congrArg (Except.map _) hplace).trans (by rw [hnew]; rfl)

/-- A plain change of a row that was not changed before changes it in its place. The table on the way has the rows changed that
came before. -/
theorem changeNext_modify (hp : t.layout.isPlain (s.cells.map (·.1)) = true) (hf : s.cellStop? g t.layout = none) {r : Row}
    (hr : r ∈ t.rows) {seen : List Int} (hfresh : r.id ∉ seen) (done : List Row) :
    s.changeNext g (done, t.modify (fun x => x.id ∈ seen) (Row.assign t.layout s.cells)) r.id =
      .ok (done ++ [r.given t.layout s.cells], t.modify (fun x => x.id ∈ seen ++ [r.id]) (Row.assign t.layout s.cells)) := by
  generalize hu : t.modify (fun x => x.id ∈ seen) (Row.assign t.layout s.cells) = u
  have hlayout : u.layout = t.layout := by rw [← hu, Table.layout_modify]
  have hmem : r ∈ u.rows := by
    rw [← hu, Table.rows_modify]
    exact List.mem_map.mpr ⟨r, hr, if_neg (by simpa using hfresh)⟩
  have hboth : u.modify (·.id = r.id) (Row.assign t.layout s.cells) =
      t.modify (fun x => x.id ∈ seen ++ [r.id]) (Row.assign t.layout s.cells) := by
    rw [← hu]
    refine Table.ext rfl ?_
    simp only [Table.rows_modify, List.map_map]
    refine List.map_congr_left fun x _ => ?_
    by_cases hx : x.id ∈ seen
    · have hne : x.id ≠ r.id := fun h => hfresh (h ▸ hx)
      simp [hx, hne]
    · simp [hx]
  unfold changeNext
  split
  next hnone =>
    rw [Table.row?_eq_some hmem] at hnone
    cases hnone
  next x hx =>
    rw [Table.row?_eq_some hmem] at hx
    cases hx
    rw [changeRow_eq (by rw [hlayout]; exact hp) (by rw [hlayout]; exact hf) hmem, hlayout]
    rw [hboth]

/-- A plain change of rows one after the other changes them in their places. -/
theorem foldlM_changeNext (hp : t.layout.isPlain (s.cells.map (·.1)) = true) (hf : s.cellStop? g t.layout = none)
    {rows : List Row} (hmem : ∀ r ∈ rows, r ∈ t.rows) (hnodup : (rows.map (·.id)).Nodup) (done : List Row) (seen : List Int)
    (hseen : ∀ r ∈ rows, r.id ∉ seen) :
    (rows.map (·.id)).foldlM (s.changeNext g) (done, t.modify (fun x => x.id ∈ seen) (Row.assign t.layout s.cells)) =
      .ok (done ++ rows.map (·.given t.layout s.cells),
        t.modify (fun x => x.id ∈ seen ++ rows.map (·.id)) (Row.assign t.layout s.cells)) := by
  induction rows generalizing done seen with
  | nil => simp [pure, Except.pure]
  | cons r rows ih =>
    obtain ⟨hr, hrest⟩ := List.forall_mem_cons.mp hmem
    obtain ⟨hfresh, hfresh'⟩ := List.forall_mem_cons.mp hseen
    rw [List.map_cons, List.nodup_cons] at hnodup
    rw [List.map_cons, List.foldlM_cons, changeNext_modify hp hf hr hfresh done]
    refine (ih hrest hnodup.2 _ _ fun x hx => ?_).trans ?_
    · rw [List.mem_append, List.mem_singleton, not_or]
      exact ⟨hfresh' x hx, fun h => hnodup.1 (h ▸ List.mem_map_of_mem hx)⟩
    · simp only [List.append_assoc, List.singleton_append, List.map_cons]

/-- A plain change changes its table in place. -/
theorem changeIn_eq (hp : t.layout.isPlain (s.cells.map (·.1)) = true) (hf : s.cellStop? g t.layout = none) :
    s.changeIn g t = .ok (s.inPlace t) := by
  have hchosen := foldlM_changeNext (g := g) hp hf
    (fun r (hr : r ∈ t.rows.filter (·.hasAll t.layout s.having)) => (List.mem_filter.mp hr).1)
    (List.Nodup.sublist (List.filter_sublist.map _) t.nodup_ids) [] [] (by simp)
  have hnone : t.modify (fun x => decide (x.id ∈ ([] : List Int))) (Row.assign t.layout s.cells) = t :=
    Table.modify_eq_self fun r _ => by simp
  have hsame : ∀ r ∈ t.rows, decide (r.id ∈ [] ++ (t.rows.filter (·.hasAll t.layout s.having)).map (·.id)) =
      r.hasAll t.layout s.having := by
    intro r hr
    rw [List.nil_append, Bool.eq_iff_iff, decide_eq_true_eq, List.mem_map]
    refine ⟨fun ⟨x, hx, hid⟩ => ?_, fun h => ⟨r, List.mem_filter.mpr ⟨hr, h⟩, rfl⟩⟩
    obtain ⟨hmem, hall⟩ := List.mem_filter.mp hx
    rwa [← Table.eq_of_id_eq hmem hr hid]
  unfold changeIn
  rw [hnone] at hchosen
  rw [hchosen, List.nil_append, Table.modify_congr hsame]
  rfl

/-- No number is given up or taken by it. -/
theorem gone_inPlace (s : Change) (t : Table) :
    Insertion.gone t (s.inPlace t).2 = [] ∧ Insertion.gone (s.inPlace t).2 t = [] := by
  have hkept : ∀ {u v : Table}, u.rows.map (·.id) = v.rows.map (·.id) → Insertion.gone u v = [] := by
    intro u v h
    refine List.filter_eq_nil_iff.mpr fun id hid => ?_
    rw [h, ← Table.isSome_row?_iff] at hid
    simp [Option.ne_none_iff_isSome.mpr hid]
  exact ⟨hkept (inPlace_snd_ids s t).symm, hkept (inPlace_snd_ids s t)⟩

/-- Nothing refers to no number. -/
@[simp] theorem referrers_nil (db : Database) (p : Column → Bool) (parent : String) : db.referrers p parent [] = 0 := by
  unfold Database.referrers
  simp only [List.length_eq_zero_iff, List.flatMap_eq_nil_iff, List.filter_eq_nil_iff]
  rintro ⟨u, c⟩ - r -
  cases (r.get c).asKind .key <;> simp

/-- No reference is given a cell by a plain change. -/
theorem references_given (hp : l.isPlain (s.cells.map (·.1)) = true) {references : List (Column × String)}
    (hsub : references ⊆ l.references) : references.filter (fun x => Layout.isGiven s.cells x.1) = [] := by
  rw [List.filter_eq_nil_iff]
  rintro ⟨c, parent⟩ hc hg
  obtain ⟨hmem, hparent⟩ := Layout.mem_references.mp (hsub hc)
  have := (Layout.isPlain_given hp hmem hg).2.2.1
  rw [hparent] at this
  cases this

/-- A plain change gives its cells to the rows it chooses and leaves all else as it is. -/
theorem run_eq (ht : db.table? s.table = some t) (hp : t.layout.isPlain (s.cells.map (·.1)) = true)
    (hf : s.cellStop? g t.layout = none) :
    s.run g db = .ok ((s.inPlace t).1.map (·.record (t.layout.pick s.returning)), db.put (s.inPlace t).2) := by
  have hgiven : t.layout.prompt.filter (fun x => Layout.isGiven s.cells x.1) = [] :=
    references_given hp (List.filter_subset_self _)
  have hlost : (s.inPlace t).1.foldl (fun n r => n + (db.put (s.inPlace t).2).lost [] r) 0 = 0 :=
    List.foldl_fixed (s.inPlace t).1
  unfold run
  rw [Database.need_eq_ok.mpr ht]
  simp only [bind, Except.bind, changeIn_eq hp hf, hgiven, gone_inPlace, referrers_nil, hlost]
  simp [pure, Except.pure]

/-- A plain change puts no reference off. -/
theorem owing_eq (ht : db.table? s.table = some t) (hp : t.layout.isPlain (s.cells.map (·.1)) = true)
    (hf : s.cellStop? g t.layout = none) : s.owing g db 0 = 0 := by
  have hgiven : t.layout.putOff.filter (fun x => Layout.isGiven s.cells x.1) = [] :=
    references_given hp (List.filter_subset_self _)
  have hlost : ∀ rows : List Row, ∀ db : Database, rows.foldl (fun n r => n + db.lost [] r) 0 = 0 := fun rows _ =>
    List.foldl_fixed rows
  unfold owing
  simp only [ht, changeIn_eq hp hf, hgiven, gone_inPlace, referrers_nil, hlost]
  simp [mend]

/-- A change gives its cells: `t` is the table before, and `db'` the database with the rows chosen from it changed. -/
structure Gives (s : Change) (db : Database) (t : Table) (db' : Database) : Prop where
  table : db.table? s.table = some t
  database : db' = db.put (s.inPlace t).2

variable {db' : Database}

/-- After a change its table has the changed rows and every other name means what it meant. -/
theorem Gives.table?_self (h : s.Gives db t db') : db'.table? s.table = some (s.inPlace t).2 := by
  have hname : (s.inPlace t).2.name = s.table := (Database.name_of_table? h.table :)
  rw [h.database, ← hname]
  refine Database.table?_put_self (u := t) ?_
  rw [hname]
  exact h.table

/-- Other tables are left. -/
theorem Gives.table?_of_ne (h : s.Gives db t db') {name : String} (hn : name ≠ s.table) : db'.table? name = db.table? name := by
  have hname : (s.inPlace t).2.name = s.table := (Database.name_of_table? h.table :)
  rw [h.database]
  exact Database.table?_put_of_ne (by rw [hname]; exact hn)

/-- Giving cells to rows leaves as many rows as there were. -/
theorem Gives.length_rows (h : s.Gives db t db') : (db'.rows s.table).length = (db.rows s.table).length := by
  rw [Database.rows_of_table? h.table, Database.rows_of_table? h.table?_self]
  exact length_inPlace s t

/-- A row of the changed table is a row as it was, if it was not chosen, or with its cells given. -/
theorem mem_inPlace {r' : Row} : r' ∈ (s.inPlace t).2.rows ↔
    ∃ r ∈ t.rows, r' = if r.hasAll t.layout s.having then r.given t.layout s.cells else r := by
  rw [inPlace_snd_rows, List.mem_map]
  exact ⟨fun ⟨r, hr, e⟩ => ⟨r, hr, e.symm⟩, fun ⟨r, hr, e⟩ => ⟨r, hr, e.symm⟩⟩

/-- A change takes one row: of the rows of its table it chooses `r` alone. -/
structure Takes (s : Change) (db : Database) (t : Table) (r : Row) (db' : Database) : Prop extends Gives s db t db' where
  mem : r ∈ t.rows
  only : ∀ x ∈ t.rows, x.hasAll t.layout s.having = true ↔ x = r

/-- What a change answers that takes one row. -/
theorem inPlace_fst_of_only {r : Row} (hr : r ∈ t.rows) (h : ∀ x ∈ t.rows, x.hasAll t.layout s.having = true ↔ x = r) :
    (s.inPlace t).1 = [r.given t.layout s.cells] := by
  rw [inPlace_fst, Table.filter_eq_singleton hr h, List.map_cons, List.map_nil]

/-- The rows after a change that takes one row are that row with its cells given, and the others as they were. -/
theorem Takes.mem_rows {r r' : Row} (h : s.Takes db t r db') :
    r' ∈ (s.inPlace t).2.rows ↔ r' = r.given t.layout s.cells ∨ r' ∈ t.rows ∧ r' ≠ r := by
  rw [mem_inPlace]
  constructor
  · rintro ⟨x, hx, rfl⟩
    by_cases hxr : x = r
    · rw [if_pos ((h.only x hx).mpr hxr), hxr]
      exact Or.inl rfl
    · rw [if_neg fun hc => hxr ((h.only x hx).mp hc)]
      exact Or.inr ⟨hx, hxr⟩
  · rintro (rfl | ⟨hx, hxr⟩)
    · exact ⟨r, h.mem, by rw [if_pos ((h.only r h.mem).mpr rfl)]⟩
    · exact ⟨r', hx, by rw [if_neg fun hc => hxr ((h.only r' hx).mp hc)]⟩

/-- A change that takes one row leaves those before it and those after it. -/
theorem Takes.rows_append {r : Row} {as bs : List Row} (h : s.Takes db t r db') (hrows : t.rows = as ++ r :: bs) :
    (s.inPlace t).2.rows = as ++ r.given t.layout s.cells :: bs := by
  have hapart : ∀ x, x ∈ as ∨ x ∈ bs → x ≠ r := by
    have hnodup := t.nodup_rows
    rw [hrows, List.nodup_append, List.nodup_cons] at hnodup
    obtain ⟨-, ⟨hbs, -⟩, has⟩ := hnodup
    rintro x (hx | hx) rfl
    · exact has x hx x (by simp) rfl
    · exact hbs hx
  have hsame : ∀ xs : List Row, (∀ x ∈ xs, x ∈ t.rows ∧ x ≠ r) →
      xs.map (fun x => if x.hasAll t.layout s.having then x.given t.layout s.cells else x) = xs := by
    intro xs hxs
    conv => rhs; rw [← List.map_id xs]
    refine List.map_congr_left ?_
    intro x hx
    rw [if_neg fun hc => (hxs x hx).2 ((h.only x (hxs x hx).1).mp hc), id]
  rw [inPlace_snd_rows, hrows, List.map_append, List.map_cons, if_pos ((h.only r h.mem).mpr rfl)]
  rw [hsame as fun x hx => ⟨by rw [hrows]; simp [hx], hapart x (Or.inl hx)⟩,
    hsame bs fun x hx => ⟨by rw [hrows]; simp [hx], hapart x (Or.inr hx)⟩]

end Change

namespace Connection

variable {c : Connection} {s : Change} {t : Table}

/-- A plain change waits for the lock and then runs. -/
theorem changeWithin_eq (ht : c.database.table? s.table = some t) (hp : s.isPlain t.layout = true)
    (hf : s.cellStop? c.guard t.layout = none) : c.changeWithin s = if c.locked then .error .locked else
      .ok ((s.inPlace t).1.map (·.record (t.layout.pick s.returning)), c.database.put (s.inPlace t).2) := by
  have hplain : t.layout.isPlain (s.cells.map (·.1)) = true := by
    simp only [Change.isPlain, Bool.and_eq_true] at hp
    exact hp.1.1.1
  unfold changeWithin write
  rw [Change.faults_eq_nil ht hp, Change.run_eq ht hplain hf]

/-- A plain change is kept as it ran. -/
theorem change_eq_changeWithin (ht : c.database.table? s.table = some t) (hp : s.isPlain t.layout = true)
    (hf : s.cellStop? c.guard t.layout = none) : c.change s = c.changeWithin s := by
  have hplain : t.layout.isPlain (s.cells.map (·.1)) = true := by
    simp only [Change.isPlain, Bool.and_eq_true] at hp
    exact hp.1.1.1
  unfold change keep
  rw [Change.owing_eq ht hplain hf]
  cases c.changeWithin s with
  | error f => rfl
  | ok v => exact if_pos (Int.le_refl 0)

end Connection
end ReviewQueue
