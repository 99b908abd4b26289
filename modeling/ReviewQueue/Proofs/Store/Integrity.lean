import ReviewQueue.Proofs.Store.Insertions

/-!
# The integrity of a database

A database is whole if every row keeps the rules of its layout and every reference leads to a row. In such a database no
row refers to a number that is free, so a row that is added where references are enforced cannot be let through for
rows that await it. Insertions and plain changes keep a database whole.
-/

namespace ReviewQueue

/-- The rows of a table fit its layout, hold the words that they may hold and repeat no cell that may not repeat. -/
structure Table.Sound (t : Table) : Prop where
  fits : t.Fits
  words : ∀ r ∈ t.rows, ∀ c ∈ t.layout.columns, c.isKey = false → c.admits (r.cell c.name) = true
  distinct : ∀ c ∈ t.layout.columns, c.unique = true → c.isKey = false → ∀ r ∈ t.rows, ∀ x ∈ t.rows,
    r.cell c.name ≠ .null → r.cell c.name = x.cell c.name → r = x

/-- The tables of a database are told apart by their names and their columns by theirs, all rows are sound, and every
reference leads to a row. -/
structure Database.Whole (db : Database) : Prop where
  named : (db.tables.map (·.name)).Nodup
  columns : ∀ t ∈ db.tables, t.layout.distinct = true
  sound : ∀ t ∈ db.tables, t.Sound
  leads : ∀ t ∈ db.tables, ∀ r ∈ t.rows, ∀ x ∈ t.layout.references, db.refers x.2 (r.get x.1) = true

namespace Database

variable {db db' : Database} {t u : Table} {name : String}

theorem mem_tables_of_table? (h : db.table? name = some t) : t ∈ db.tables := List.mem_of_find?_eq_some h

/-- Where names tell tables apart, every table is the one that its name means. -/
theorem table?_name_of_mem (hn : (db.tables.map (·.name)).Nodup) (ht : t ∈ db.tables) : db.table? t.name = some t := by
  have hsome : (db.table? t.name).isSome := List.find?_isSome.mpr ⟨t, ht, decide_eq_true rfl⟩
  obtain ⟨u, hu⟩ := Option.isSome_iff_exists.mp hsome
  rw [hu, List.inj_on_of_nodup_map hn (mem_tables_of_table? hu) ht (name_of_table? hu)]

/-- After a table is put, every table is that one or was there before under another name. -/
theorem mem_tables_put (h : u ∈ (db.put t).tables) : u = t ∨ u ∈ db.tables ∧ u.name ≠ t.name := by
  obtain ⟨v, hv, rfl⟩ := List.mem_map.mp h
  split
  next => exact Or.inl rfl
  next hne => exact Or.inr ⟨hv, hne⟩

/-- Putting a table of the layout that the one of its name has leaves all layouts. -/
theorem layouts_put (hn : (db.tables.map (·.name)).Nodup) (hu : db.table? t.name = some u) (hl : t.layout = u.layout) :
    (db.put t).tables.map (·.layout) = db.tables.map (·.layout) := by
  unfold put
  rw [List.map_map]
  refine List.map_congr_left ?_
  intro v hv
  simp only [Function.comp_apply]
  split
  next hname =>
    have hvt := table?_name_of_mem hn hv
    rw [hname, hu] at hvt
    cases hvt
    exact hl
  next => rfl

/-- A cell refers to a row if it is null or, as a key, the number of one. -/
theorem refers_iff {cell : Cell} : db.refers name cell = true ↔
    cell.asKind .key = .null ∨ ∃ r ∈ db.rows name, cell.asKind .key = .int r.id := by
  unfold refers rows
  cases hcell : cell.asKind .key with
  | null => simp
  | int id =>
    cases ht : db.table? name with
    | none => simp
    | some t =>
      simp only [Option.bind_some, Option.map_some, Option.getD_some, Table.isSome_row?_iff, List.mem_map, Cell.int.injEq,
        reduceCtorEq, false_or]
      exact ⟨fun ⟨r, hr, hid⟩ => ⟨r, hr, hid.symm⟩, fun ⟨r, hr, hid⟩ => ⟨r, hr, hid.symm⟩⟩
  | _ => simp

/-- A reference still leads to a row if the numbers of the table are still there. -/
theorem refers_mono {cell : Cell} (h : db.refers name cell = true)
    (hrows : ∀ r ∈ db.rows name, ∃ x ∈ db'.rows name, x.id = r.id) : db'.refers name cell = true := by
  rcases refers_iff.mp h with hnull | ⟨r, hr, hcell⟩
  · exact refers_iff.mpr (Or.inl hnull)
  · obtain ⟨x, hx, hid⟩ := hrows r hr
    exact refers_iff.mpr (Or.inr ⟨x, hx, by rw [hid]; exact hcell⟩)

/-- No reference of a row is lost exactly if each leads to a row. -/
theorem lost_eq_zero_iff {references : List (Column × String)} {r : Row} :
    db.lost references r = 0 ↔ ∀ x ∈ references, db.refers x.2 (r.get x.1) = true := by
  unfold lost
  rw [List.length_eq_zero_iff, List.filter_eq_nil_iff]
  simp

end Database

/-- A column that is given no cell keeps its own. -/
theorem Row.get_given_of_not_given {r : Row} {l : Layout} (hr : r.Fits l) (hl : l.distinct = true)
    {cells : List (String × Cell)} {c : Column} (hc : c ∈ l.columns) (hn : ¬Layout.isGiven cells c = true) :
    (r.given l cells).get c = r.get c := by
  by_cases hk : c.isKey = true
  · rw [get_of_isKey _ hk, get_of_isKey _ hk, given_id]
  · have hk : c.isKey = false := by simpa using hk
    rw [get_of_isKey_false _ hk, get_of_isKey_false _ hk, hr.cell_given hl cells c hc hk, if_neg hn]

/-! ## Sound tables -/

namespace Table.Sound

variable {t new : Table} {g : Guard}

theorem of_rows_eq_nil (h : t.rows = []) : t.Sound := by
  refine ⟨fun r hr => ?_, fun r hr => ?_, fun c _ _ _ r hr => ?_⟩ <;>
    · rw [h] at hr
      cases hr

/-- A table of nothing but its key has no cells to be wrong. -/
theorem of_keys (hkey : ∀ c ∈ t.layout.columns, c.isKey = true) : t.Sound := by
  have hnone : ∀ c ∈ t.layout.columns, c.isKey = false → False := fun c hc hk => by simp [hkey c hc] at hk
  refine ⟨fun r hr => ⟨t.shaped r hr, ?_, ?_⟩, fun r _ c hc hk => (hnone c hc hk).elim, fun c hc _ hk => (hnone c hc hk).elim⟩
  · exact fun c hc => Row.asKind_get_of_isKey r (hkey c hc)
  · intro c hc _
    rw [Row.get_of_isKey r (hkey c hc)]
    exact Cell.noConfusion

/-- A row that is right by itself and repeats nothing leaves its table sound. -/
theorem of_adds (h : t.Sound) {s : Insertion} {db db' : Database} {id : Int} (hl : t.layout.distinct = true)
    (hs : t.layout.isStrict = true) (hg : g.words = true) (hadds : s.Adds g db t new id db') : new.Sound := by
  have hcell : ∀ c ∈ t.layout.columns, c.isKey = false → (s.row t.layout id).cell c.name = Layout.cellFor s.cells c :=
    fun c hc hk => Insertion.cell_row hl id hc hk
  -- in a column that may not repeat the cell of the new row is that of no other
  have hdiffers : ∀ c ∈ t.layout.columns, c.unique = true → c.isKey = false → ∀ r ∈ t.rows,
      (s.row t.layout id).cell c.name ≠ .null → r.cell c.name ≠ (s.row t.layout id).cell c.name := by
    intro c hc hu hk r hr hnull hsame
    have hfree := (Table.insert?_eq_some (hadds.inserted hs)).2.2
    have hnot := (Insertion.rival?_eq_none_iff hs hfree).mp hadds.differs c hc hu hk r hr
    rw [hsame, Cell.same_self hnull] at hnot
    cases hnot
  refine ⟨?_, ?_, ?_⟩
  · intro r hr
    rw [hadds.layout_eq]
    rcases (hadds.mem_rows hs).mp hr with rfl | hr
    · exact Insertion.row_fits hl hadds.cells id
    · exact h.fits r hr
  · rw [hadds.layout_eq]
    intro r hr c hc hk
    rcases (hadds.mem_rows hs).mp hr with rfl | hr
    · rw [hcell c hc hk]
      exact (Insertion.of_cellStop? hadds.cells hc hk).2 hg
    · exact h.words r hr c hc hk
  · rw [hadds.layout_eq]
    intro c hc hu hk r hr x hx hnull hsame
    rcases (hadds.mem_rows hs).mp hr with rfl | hr <;> rcases (hadds.mem_rows hs).mp hx with rfl | hx
    · rfl
    · exact absurd hsame.symm (hdiffers c hc hu hk x hx hnull)
    · exact absurd hsame (hdiffers c hc hu hk r hr (hsame ▸ hnull))
    · exact h.distinct c hc hu hk r hr x hx hnull hsame

/-- A plain change the cells of which are right by themselves leaves its table sound. -/
theorem of_inPlace (h : t.Sound) {s : Change} (hl : t.layout.distinct = true)
    (hplain : t.layout.isPlain (s.cells.map (·.1)) = true) (hg : g.words = true) (hf : s.cellStop? g t.layout = none) :
    (s.inPlace t).2.Sound := by
  refine ⟨?_, ?_, ?_⟩
  · intro x hx
    obtain ⟨r, hr, rfl⟩ := Change.mem_inPlace.mp hx
    split
    · exact (h.fits r hr).given hl fun c hc hk hgiven => (Change.of_cellStop? hf hc hk hgiven).1
    · exact h.fits r hr
  · intro x hx c hc hk
    obtain ⟨r, hr, rfl⟩ := Change.mem_inPlace.mp hx
    split
    · rw [(h.fits r hr).cell_given hl s.cells c hc hk]
      split
      next hgiven => exact (Change.of_cellStop? hf hc hk hgiven).2 hg
      next => exact h.words r hr c hc hk
    · exact h.words r hr c hc hk
  · -- no cell is given in a column that may not repeat
    intro c hc hu hk x hx y hy hnull hsame
    obtain ⟨r, hr, rfl⟩ := Change.mem_inPlace.mp hx
    obtain ⟨r', hr', rfl⟩ := Change.mem_inPlace.mp hy
    have hkeeps : ∀ r ∈ t.rows, (if r.hasAll t.layout s.having then r.given t.layout s.cells else r).cell c.name =
        r.cell c.name := by
      intro r hr
      split
      · rw [(h.fits r hr).cell_given hl s.cells c hc hk, if_neg]
        intro hgiven
        have hnot := (Layout.isPlain_given hplain hc hgiven).2.1
        rw [hu] at hnot
        cases hnot
      · rfl
    rw [hkeeps r hr] at hnull hsame
    rw [hkeeps r' hr'] at hsame
    rw [h.distinct c hc hu hk r hr r' hr' hnull hsame]

end Table.Sound

/-! ## Whole databases -/

namespace Database.Whole

variable {db db' : Database} {t new : Table} {g : Guard} {name : String}

/-- No row refers to a number that is free. -/
theorem referrers_eq_zero (h : db.Whole) (ht : db.table? name = some t) {id : Int} (hfree : ∀ x ∈ t.rows, x.id ≠ id)
    (p : Column → Bool) : db.referrers p name [id] = 0 := by
  unfold referrers
  rw [List.length_eq_zero_iff, List.flatMap_eq_nil_iff]
  rintro ⟨u, c⟩ hu
  obtain ⟨v, hv, hc⟩ := List.mem_flatMap.mp (List.mem_filter.mp hu).1
  obtain ⟨⟨c', parent⟩, hmem, heq⟩ := List.mem_map.mp hc
  cases heq
  obtain ⟨href, hparent⟩ := List.mem_filter.mp hmem
  refine List.filter_eq_nil_iff.mpr ?_
  intro r hr hrefers
  have hleads := h.leads u (List.mem_reverse.mp hv) r hr _ href
  rw [show parent = name from of_decide_eq_true hparent] at hleads
  rcases refers_iff.mp hleads with hnull | ⟨x, hx, hcell⟩
  · simp [hnull] at hrefers
  · rw [rows_of_table? ht] at hx
    simp only [hcell, List.contains_cons, List.contains_nil, Bool.or_false, beq_iff_eq] at hrefers
    exact hfree x hx hrefers

/-- A row that is added where references are enforced has none that leads nowhere. -/
theorem lost_eq_zero (h : db.Whole) {s : Insertion} {id : Int} (hs : t.layout.isStrict = true) (hadds : s.Adds g db t new id db')
    (hmissed : s.missed db t new id ≤ s.mended db t id) : db'.lost t.layout.references (s.row t.layout id) = 0 := by
  have hfree : ∀ x ∈ t.rows, x.id ≠ id := (Table.insert?_eq_some (hadds.inserted hs)).2.2
  have hmended : s.mended db t id = 0 := by
    unfold Insertion.mended
    rw [h.referrers_eq_zero hadds.table hfree, ite_self]
  rw [hmended, Insertion.missed_eq hs hadds] at hmissed
  exact Nat.le_zero.mp hmissed

/-- Putting a sound table of the same layout in the place of its name keeps a database whole if all its numbers are still
there and its own references lead to rows that were there or are there now. -/
theorem put (h : db.Whole) (ht : db.table? new.name = some t) (hl : new.layout = t.layout) (hsound : new.Sound)
    (hids : ∀ r ∈ t.rows, ∃ x ∈ new.rows, x.id = r.id)
    (hleads : ∀ r ∈ new.rows, ∀ x ∈ t.layout.references,
      db.refers x.2 (r.get x.1) = true ∨ (db.put new).refers x.2 (r.get x.1) = true) : (db.put new).Whole := by
  have hlayouts := layouts_put h.named ht hl
  have hrows : ∀ name, ∀ r ∈ db.rows name, ∃ x ∈ (db.put new).rows name, x.id = r.id := by
    intro name r hr
    by_cases hn : name = new.name
    · rw [hn, rows_of_table? ht] at hr
      rw [hn, rows_of_table? (table?_put_self ht)]
      exact hids r hr
    · rw [rows_congr (table?_put_of_ne hn)]
      exact ⟨r, hr, rfl⟩
  refine ⟨?_, ?_, ?_, ?_⟩
  · have hnames := congrArg (List.map Layout.name) hlayouts
    rw [List.map_map, List.map_map] at hnames
    exact hnames ▸ h.named
  · intro u hu
    rcases mem_tables_put hu with rfl | ⟨hu, -⟩
    · rw [hl]
      exact h.columns t (mem_tables_of_table? ht)
    · exact h.columns u hu
  · intro u hu
    rcases mem_tables_put hu with rfl | ⟨hu, -⟩
    · exact hsound
    · exact h.sound u hu
  · intro u hu r hr x hx
    rcases mem_tables_put hu with rfl | ⟨hu, -⟩
    · rcases hleads r hr x (by rw [← hl]; exact hx) with hold | hnow
      · exact refers_mono hold (hrows x.2)
      · exact hnow
    · exact refers_mono (h.leads u hu r hr x hx) (hrows x.2)

/-- An insertion keeps a database whole if the references of its row lead to rows. -/
theorem of_adds (h : db.Whole) {s : Insertion} {id : Int} (hs : t.layout.isStrict = true) (hadds : s.Adds g db t new id db')
    (hg : g.words = true) (hlost : db'.lost t.layout.references (s.row t.layout id) = 0) : db'.Whole := by
  have hmem := mem_tables_of_table? hadds.table
  have hname : new.name = s.table := (congrArg Layout.name hadds.layout_eq).trans (name_of_table? hadds.table)
  have hsound := (h.sound t hmem).of_adds (h.columns t hmem) hs hg hadds
  rw [hadds.database] at hlost ⊢
  refine h.put (by rw [hname]; exact hadds.table) hadds.layout_eq hsound ?_ ?_
  · intro r hr
    exact ⟨r, (hadds.mem_rows hs).mpr (Or.inr hr), rfl⟩
  · intro r hr x hx
    rcases (hadds.mem_rows hs).mp hr with rfl | hr
    · exact Or.inr (lost_eq_zero_iff.mp hlost x hx)
    · exact Or.inl (h.leads t hmem r hr x hx)

/-- A plain change keeps a database whole if its cells are right by themselves. -/
theorem of_gives (h : db.Whole) {s : Change} (hgives : s.Gives db t db')
    (hplain : t.layout.isPlain (s.cells.map (·.1)) = true) (hg : g.words = true) (hf : s.cellStop? g t.layout = none) :
    db'.Whole := by
  have hmem := mem_tables_of_table? hgives.table
  have hname : (s.inPlace t).2.name = s.table := name_of_table? (t := t) hgives.table
  have hl := h.columns t hmem
  have hids : ∀ r ∈ t.rows, ∃ x ∈ (s.inPlace t).2.rows, x.id = r.id := by
    intro r hr
    have hid : r.id ∈ (s.inPlace t).2.rows.map (·.id) := by
      rw [Change.inPlace_snd_ids]
      exact List.mem_map_of_mem hr
    exact List.mem_map.mp hid
  rw [hgives.database]
  refine h.put (t := t) (by rw [hname]; exact hgives.table) rfl ((h.sound t hmem).of_inPlace hl hplain hg hf) hids ?_
  intro y hy x hx
  obtain ⟨r, hr, rfl⟩ := Change.mem_inPlace.mp hy
  have hkeeps : (if r.hasAll t.layout s.having then r.given t.layout s.cells else r).get x.1 = r.get x.1 := by
    split
    · obtain ⟨hc, hparent⟩ := Layout.mem_references.mp hx
      refine Row.get_given_of_not_given ((h.sound t hmem).fits r hr) hl hc ?_
      intro hgiven
      rw [(Layout.isPlain_given hplain hc hgiven).2.2.1] at hparent
      cases hparent
    · rfl
  rw [hkeeps]
  exact Or.inl (h.leads t hmem r hr x hx)

/-- A column of numbers that refers to a table is null or the number of a row there. -/
theorem exists_parent (h : db.Whole) (ht : db.table? name = some t) {c : Column} {parent : String} (hc : c ∈ t.layout.columns)
    (hparent : c.parentName = some parent) (hkind : c.kind = .integer) {r : Row} (hr : r ∈ db.rows name) :
    r.cell c.name = .null ∨ ∃ x ∈ db.rows parent, r.cell c.name = .int x.id := by
  have hmem := mem_tables_of_table? ht
  rw [rows_of_table? ht] at hr
  have hk : c.isKey = false := by simp [Column.isKey, hkind]
  have hleads := h.leads t hmem r hr (c, parent) (Layout.mem_references.mpr ⟨hc, hparent⟩)
  have hcell := ((h.sound t hmem).fits r hr).kinds c hc
  simp only [hkind, Row.get_of_isKey_false r hk] at hcell hleads
  have hsame : (r.cell c.name).asKind .key = (r.cell c.name).asKind .integer := by cases r.cell c.name <;> rfl
  rw [refers_iff, hsame, hcell] at hleads
  exact hleads

/-- A cell that is required is not null. -/
theorem cell_ne_null (h : db.Whole) (ht : db.table? name = some t) {c : Column} (hc : c ∈ t.layout.columns)
    (hk : c.isKey = false) (hreq : c.required = true) {r : Row} (hr : r ∈ db.rows name) : r.cell c.name ≠ .null := by
  rw [rows_of_table? ht] at hr
  rw [← Row.get_of_isKey_false r hk]
  exact ((h.sound t (mem_tables_of_table? ht)).fits r hr).required c hc hreq

/-- The cells of a column that is required and may not repeat are different from each other. -/
theorem nodup_cells (h : db.Whole) (ht : db.table? name = some t) {c : Column} (hc : c ∈ t.layout.columns)
    (hk : c.isKey = false) (hreq : c.required = true) (hu : c.unique = true) :
    ((db.rows name).map (·.cell c.name)).Nodup := by
  have hnull : ∀ r ∈ db.rows name, r.cell c.name ≠ .null := fun r hr => h.cell_ne_null ht hc hk hreq hr
  rw [rows_of_table? ht] at hnull ⊢
  refine List.Nodup.map_on ?_ t.nodup_rows
  intro r hr x hx hsame
  exact (h.sound t (mem_tables_of_table? ht)).distinct c hc hu hk r hr x hx (hnull r hr) hsame

end Database.Whole
end ReviewQueue
