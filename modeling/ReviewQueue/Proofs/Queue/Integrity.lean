import ReviewQueue.Proofs.Queue.Footprint
import ReviewQueue.Proofs.Store.Integrity

/-!
# The integrity of the store

Whatever calls do, and whether they succeed or fail, the database of a site stays whole: its rows keep the rules of the
layouts, its references lead to rows, and the numbers of its entities leave no gap. A number is used by a row that is
stored and by nothing else: an insertion that is refused, left out for a conflict or rolled back uses none.
-/

namespace ReviewQueue

/-- The tables of entities. -/
def Layout.entities : List Layout := [repos, commits, jobs, reviews, responses]

/-- What holds of the database of every site: it is whole and in the current layout, the numbers of its entities leave no
gap, and the current version alone is recorded. -/
structure Database.Intact (db : Database) : Prop where
  layouts : db.tables.map (·.layout) = Layout.current
  whole : db.Whole
  gapless : ∀ l ∈ Layout.entities, ∀ t, db.table? l.name = some t → t.Gapless
  version : db.rows "schema_version" = [⟨currentVersion, []⟩]

namespace Database.Intact

variable {db db' : Database} {t new : Table} {g : Guard}

theorem isCurrent (h : db.Intact) : db.IsCurrent := by
  intro l hl
  rw [← h.layouts] at hl
  obtain ⟨t, ht, rfl⟩ := List.mem_map.mp hl
  exact ⟨t, table?_name_of_mem h.whole.named ht, rfl⟩

/-- A table of an entity has the layout of its name. -/
theorem layout_eq (h : db.Intact) {l : Layout} (hl : l ∈ Layout.entities) (ht : db.table? l.name = some t) : t.layout = l :=
  h.isCurrent.layout_eq (List.mem_cons_of_mem _ hl) ht

/-- Putting a table of the same layout in the place of its name leaves the database intact if it stays whole and no gap
comes into the numbers. The version is not touched. -/
theorem put (h : db.Intact) (ht : db.table? new.name = some t) (hl : new.layout = t.layout)
    (hversion : new.name ≠ "schema_version") (hwhole : (db.put new).Whole) (hgapless : t.Gapless → new.Gapless) :
    (db.put new).Intact := by
  refine ⟨?_, hwhole, ?_, ?_⟩
  · rw [layouts_put h.whole.named ht hl]
    exact h.layouts
  · intro l hmem u hu
    by_cases hn : l.name = new.name
    · rw [hn, table?_put_self ht] at hu
      cases hu
      exact hgapless (h.gapless l hmem t (by rw [hn]; exact ht))
    · rw [table?_put_of_ne hn] at hu
      exact h.gapless l hmem u hu
  · rw [rows_congr (table?_put_of_ne hversion.symm)]
    exact h.version

/-- A row of the next number that is added to a table of entities leaves the database intact, if its references lead to
rows. -/
theorem of_adds (h : db.Intact) {s : Insertion} {id : Int} {l : Layout} (hl : l ∈ Layout.entities) (hname : s.table = l.name)
    (hadds : s.Adds g db t new id db') (hid : id = t.nextId) (hg : g.words = true)
    (hlost : db'.lost t.layout.references (s.row t.layout id) = 0) :
    db'.Intact ∧ new.rows = t.rows ++ [s.row t.layout id] := by
  have hnames : ∀ l ∈ Layout.entities, l.name ≠ "schema_version" := by decide
  have hnew : new.name = s.table := (congrArg Layout.name hadds.layout_eq).trans (name_of_table? hadds.table)
  have hstrict : t.layout.isStrict = true :=
    h.isCurrent.isStrict (List.mem_cons_of_mem _ hl) (by rw [← hname]; exact hadds.table)
  have hinsert := fun hgapless : t.Gapless =>
    hgapless.insert? (by rw [Insertion.row_id]; exact hid) (hadds.inserted hstrict)
  have hwhole := h.whole.of_adds hstrict hadds hg hlost
  rw [hadds.database] at hwhole ⊢
  refine ⟨h.put (by rw [hnew]; exact hadds.table) hadds.layout_eq ?_ hwhole fun hgapless => (hinsert hgapless).2, ?_⟩
  · rw [hnew, hname]
    exact hnames l hl
  · exact (hinsert (h.gapless l hl t (by rw [← hname]; exact hadds.table))).1

/-- A change of jobs leaves the database intact. -/
theorem of_gives (h : db.Intact) {s : Change} {source target : JobStatus} (hs : s.MovesJobs source target)
    (hl : t.layout = .jobs) (hgives : s.Gives db t db') : db'.Intact := by
  have hnew : (s.inPlace t).2.name = s.table := name_of_table? (t := t) hgives.table
  have hplain : t.layout.isPlain (s.cells.map (·.1)) = true := by
    have hplain := hs.plain
    simp only [Change.isPlain, Bool.and_eq_true] at hplain
    rw [hl]
    exact hplain.1.1.1
  have hwhole := h.whole.of_gives (g := {}) hgives hplain rfl (by rw [hl]; exact hs.cells {})
  rw [hgives.database] at hwhole ⊢
  refine h.put (t := t) (by rw [hnew]; exact hgives.table) rfl ?_ hwhole fun hgapless => Change.gapless_inPlace hgapless s
  rw [hnew, hs.table]
  decide

/-! ### What it says of columns -/

variable {l : Layout} {c : Column} {r : Row} {parent : String}

/-- A column that refers to a table is null or the number of a row there. -/
theorem null_or_parent (h : db.Intact) (hl : l ∈ Layout.entities) (hc : c ∈ l.columns) (hparent : c.parentName = some parent)
    (hkind : c.kind = .integer) (hr : r ∈ db.rows l.name) :
    r.cell c.name = .null ∨ ∃ x ∈ db.rows parent, r.cell c.name = .int x.id := by
  obtain ⟨t, ht, rfl⟩ := h.isCurrent l (List.mem_cons_of_mem _ hl)
  exact h.whole.exists_parent ht hc hparent hkind hr

/-- A column that is required and refers to a table is the number of a row there. -/
theorem exists_parent (h : db.Intact) (hl : l ∈ Layout.entities) (hc : c ∈ l.columns) (hparent : c.parentName = some parent)
    (hkind : c.kind = .integer) (hreq : c.required = true) (hr : r ∈ db.rows l.name) :
    ∃ x ∈ db.rows parent, r.cell c.name = .int x.id := by
  obtain ⟨t, ht, rfl⟩ := h.isCurrent l (List.mem_cons_of_mem _ hl)
  have hk : c.isKey = false := by simp [Column.isKey, hkind]
  exact (h.whole.exists_parent ht hc hparent hkind hr).resolve_left (h.whole.cell_ne_null ht hc hk hreq hr)

/-- Such a cell stands at the place of an integer only if it is the integer. -/
theorem same_int (h : db.Intact) (hl : l ∈ Layout.entities) (hc : c ∈ l.columns) (hparent : c.parentName = some parent)
    (hkind : c.kind = .integer) (hreq : c.required = true) (hr : r ∈ db.rows l.name) (n : Int) :
    Cell.same (r.cell c.name) (.int n) = decide (r.cell c.name = .int n) := by
  obtain ⟨x, -, hx⟩ := h.exists_parent hl hc hparent hkind hreq hr
  rw [hx, Cell.same_int]
  simp only [Cell.int.injEq]

/-- The cells of a column that is required and may not repeat are different from each other. -/
theorem nodup_cells (h : db.Intact) (hl : l ∈ Layout.entities) (hc : c ∈ l.columns) (hk : c.isKey = false)
    (hreq : c.required = true) (hu : c.unique = true) : ((db.rows l.name).map (·.cell c.name)).Nodup := by
  obtain ⟨t, ht, rfl⟩ := h.isCurrent l (List.mem_cons_of_mem _ hl)
  exact h.whole.nodup_cells ht hc hk hreq hu

/-- Every job has one of the statuses. -/
theorem exists_status (h : db.Intact) (hr : r ∈ db.rows "review_jobs") : ∃ s, r.HasStatus s := by
  obtain ⟨t, ht, hl⟩ := h.isCurrent.jobs
  have hmem : Column.status ∈ t.layout.columns := by
    rw [hl]
    decide
  have hnull := h.whole.cell_ne_null ht hmem rfl rfl hr
  rw [Database.rows_of_table? ht] at hr
  have hword := (h.whole.sound t (mem_tables_of_table? ht)).words r hr _ hmem rfl
  simp only [Column.admits, Column.status, Bool.or_eq_true, decide_eq_true_eq, List.any_map, List.any_eq_true,
    Function.comp_apply, List.map_eq_nil_iff] at hword
  rcases hword with (hnil | hnone) | ⟨s, -, hs⟩
  · cases hnil
  · exact absurd (of_decide_eq_true hnone) hnull
  · exact ⟨s, of_decide_eq_true hs⟩

/-- The numbers of an entity are 1, 2, 3 and so on up to the count of its rows. -/
theorem ids_eq (h : db.Intact) (hl : l ∈ Layout.entities) :
    (db.rows l.name).map (·.id) = (List.range (db.rows l.name).length).map fun (k : Nat) => (k : Int) + 1 := by
  obtain ⟨t, ht, -⟩ := h.isCurrent l (List.mem_cons_of_mem _ hl)
  rw [rows_of_table? ht]
  exact h.gapless l hl t ht

end Database.Intact

/-- Each table has as many rows as it had, and the one that is named one more. -/
def Database.GainsRow (db db' : Database) (stored : Option String) : Prop :=
  ∀ name, (db'.rows name).length = (db.rows name).length + if stored = some name then 1 else 0

/-- A statement that adds a row to a table of entities and leaves it to the table to give a number. -/
def Insertion.AddsEntity (s : Insertion) : Prop :=
  ∃ l ∈ Layout.entities, s.table = l.name ∧ (s.cells.map (·.1)).any ((Column.key "id").answersTo ·) = false

theorem Call.insertion?_addsEntity {now : Timestamp} {call : Call} {s : Insertion} (h : call.insertion? now = some s) :
    s.AddsEntity := by
  cases call with
  | asked op =>
    cases op with
    | enqueue r =>
      cases h
      have hkey : (["repo_id", "commit_id", "git_ref", "agent", "status", "enqueued_at"].any
        ((Column.key "id").answersTo ·)) = false := by decide
      exact ⟨.jobs, by simp [Layout.entities], rfl, hkey⟩
    | addResponse r =>
      cases h
      have hkey : (["commit_id", "responder", "response", "created_at"].any ((Column.key "id").answersTo ·)) = false := by
        decide
      exact ⟨.responses, by simp [Layout.entities], rfl, hkey⟩
    | _ => cases h
  | registering path =>
    cases h
    have hkey : (["root_path", "name", "created_at"].any ((Column.key "id").answersTo ·)) = false := by decide
    exact ⟨.repos, by simp [Layout.entities], rfl, hkey⟩
  | storing info =>
    cases h
    have hkey : (["repo_id", "sha", "author", "subject", "timestamp", "created_at"].any
      ((Column.key "id").answersTo ·)) = false := by decide
    exact ⟨.commits, by simp [Layout.entities], rfl, hkey⟩
  | _ => cases h

theorem Connection.reviewing_addsEntity (now : Timestamp) (id : Int) (text : ReviewText) :
    (reviewing now id text).AddsEntity := by
  have hkey : (["job_id", "agent", "prompt", "output", "created_at"].any ((Column.key "id").answersTo ·)) = false := by decide
  exact ⟨.reviews, by simp [Layout.entities], rfl, hkey⟩

/-- The row of such a statement gets the next number. -/
theorem Insertion.AddsEntity.number_eq {s : Insertion} (h : s.AddsEntity) {db : Database} (hdb : db.Intact) {t : Table}
    (ht : db.table? s.table = some t) : s.number t = .ok t.nextId := by
  obtain ⟨l, hl, hname, hkey⟩ := h
  rw [hname] at ht
  have hkeys : ∀ l ∈ Layout.entities, l.columns.find? (·.isKey) = some (.key "id") := by decide
  refine Insertion.number_eq_nextId (.key "id") (by rw [hdb.layout_eq hl ht]; exact hkeys l hl) ?_
  have hnone : s.cells.find? (fun x => (Column.key "id").answersTo x.1) = none := by
    refine List.find?_eq_none.mpr ?_
    intro x hx
    rw [List.any_eq_false] at hkey
    exact hkey x.1 (List.mem_map_of_mem hx)
  unfold Layout.cellFor
  rw [hnone]
  rfl

namespace Connection

variable {c : Connection}

/-- A statement that adds an entity leaves the database intact, where references are enforced, and there is one row more
if it answers one. -/
theorem insert_intact {s : Insertion} {a : Option Record} {db : Database} (h : c.database.Intact)
    (henforcing : c.enforcing = true) (hs : s.AddsEntity) (hins : c.insert s = .ok (a, db)) :
    db.Intact ∧ c.database.GainsRow db (a.map fun _ => s.table) := by
  obtain ⟨l, hl, hname, -⟩ := id hs
  have hcurrent := List.mem_cons_of_mem Layout.schemaVersion hl
  rcases insert_cases h.isCurrent hcurrent hname hins with ⟨rfl, rfl, -⟩ | ⟨t, new, id, hadds, rfl, hlost⟩
  · exact ⟨h, fun name => by simp⟩
  · have hid : id = t.nextId := by
      cases (hs.number_eq h hadds.table).symm.trans hadds.number
      rfl
    have hstrict := h.isCurrent.isStrict hcurrent (by rw [← hname]; exact hadds.table)
    have hleads := h.whole.lost_eq_zero hstrict hadds (hlost henforcing)
    obtain ⟨hintact, hrows⟩ := h.of_adds hl hname hadds hid rfl hleads
    refine ⟨hintact, fun name => ?_⟩
    rw [Option.map_some]
    by_cases hn : name = s.table
    · rw [hn, Database.rows_of_table? hadds.table, Database.rows_of_table? hadds.table?_self, hrows, List.length_append,
        if_pos rfl, List.length_singleton]
    · have hne : ¬some s.table = some name := fun heq => hn (Option.some.inj heq).symm
      rw [Database.rows_congr (hadds.table?_of_ne hn), if_neg hne]
      rfl

/-- A change of jobs leaves the database intact and all tables as long as they were. -/
theorem change_intact {s : Change} {source target : JobStatus} {rows : List Record} {db : Database}
    (h : c.database.Intact) (hs : s.MovesJobs source target) (hchange : c.change s = .ok (rows, db)) :
    db.Intact ∧ c.database.GainsRow db none := by
  obtain ⟨t, -, hl, hgives⟩ := gives_of_change h.isCurrent hs hchange
  refine ⟨h.of_gives hs hl hgives, fun name => ?_⟩
  by_cases hn : name = s.table
  · rw [hn]
    exact hgives.length_rows
  · rw [Database.rows_congr (hgives.table?_of_ne hn)]
    simp

end Connection

/-- What the next statement of a call does leaves the database intact, where references are enforced, and adds a row to
the table in which the statement stores one. -/
theorem Call.run_intact {c : Connection} (h : c.database.Intact) (henforcing : c.enforcing = true) (now : Timestamp)
    (call : Call) : (call.run c now).2.Intact ∧ c.database.GainsRow (call.run c now).2 (call.stores? c now) := by
  have hacts := run_acts c now call
  generalize (call.run c now).2 = db at hacts ⊢
  cases hacts with
  | nothing silent =>
    rw [silent]
    exact ⟨h, fun name => by simp⟩
  | inserts statement inserts stores =>
    rw [stores]
    exact Connection.insert_intact h henforcing (insertion?_addsEntity statement) inserts
  | changes statement changes silent =>
    obtain ⟨source, target, hs⟩ := change?_moves statement
    rw [silent]
    exact Connection.change_intact h hs changes
  | @completes id text _ done _ _ changes inserts stores =>
    have hs := Connection.finishing_moves now id .done none
    obtain ⟨hdone, hsame⟩ := Connection.change_intact h hs (Connection.change_eq_within hs h.isCurrent ▸ changes)
    obtain ⟨hintact, hmore⟩ := Connection.insert_intact (c := c.on done) hdone henforcing
      (Connection.reviewing_addsEntity now id text) ((Connection.insert_reviewing hdone.isCurrent now id text).trans inserts)
    rw [stores]
    refine ⟨hintact, fun name => ?_⟩
    have hbefore : (done.rows name).length = (c.database.rows name).length := hsame name
    rw [← hbefore]
    exact hmore name

/-- A statement that stores a row and does not answer its call is followed by the one that looks the row up. -/
theorem Call.next_of_stores {c : Connection} {now : Timestamp} {call call' : Call} (h : call.stores? c now ≠ none)
    (hnext : (call.run c now).1 = .next call') : (∃ path, call' = .registered path) ∨ ∃ info, call' = .stored info := by
  cases call with
  | asked op =>
    cases op with
    | registerRepo | storeCommit | fail => exact absurd rfl h
    | _ => cases hnext
  | registering path =>
    simp only [run] at hnext
    split at hnext <;> cases hnext
    exact Or.inl ⟨path, rfl⟩
  | storing info =>
    simp only [run] at hnext
    split at hnext <;> cases hnext
    exact Or.inr ⟨info, rfl⟩
  | registered | stored | refusing => cases hnext

/-! ## Over runs -/

namespace Site

/-- How many of some actions store a row in a table. -/
def stored (name : String) : Site → List Action → Nat
  | _, [] => 0
  | w, a :: as => (if (w.call a).stores? (w.connection a) a.now = some name then 1 else 0) + stored name (w.step a).1 as

/-- A call that has stored a row has at most one statement left, which stores none. -/
theorem calls_of_stores {w : Site} {a : Action} (h : (w.call a).stores? (w.connection a) a.now ≠ none) {call : Call}
    (hcall : (w.step a).1.calls a.handle = some call) (c : Connection) (now : Timestamp) :
    call.stores? c now = none ∧ ∃ answer, (call.run c now).1 = .answered answer := by
  have hnext : ((w.call a).run (w.connection a) a.now).1 = .next call := by
    unfold step at hcall
    split at hcall
    next heq =>
      simp only [Function.update_self] at hcall
      cases hcall
      rw [heq]
    next =>
      simp only [Function.update_self] at hcall
      cases hcall
  rcases Call.next_of_stores h hnext with ⟨path, rfl⟩ | ⟨info, rfl⟩
  · exact ⟨rfl, _, rfl⟩
  · exact ⟨rfl, _, rfl⟩

/-- After every run the database is intact, and each table has as many rows more as actions stored a row there. -/
theorem after_intact {w : Site} (hw : w.database.Intact) (as : List Action) : (w.after as).database.Intact ∧
    ∀ name, ((w.after as).database.rows name).length = (w.database.rows name).length + w.stored name as := by
  induction as generalizing w with
  | nil => exact ⟨hw, fun name => rfl⟩
  | cons a as ih =>
    obtain ⟨hstep, hmore⟩ := Call.run_intact (c := w.connection a) hw rfl a.now (w.call a)
    rw [← step_database] at hstep hmore
    obtain ⟨hafter, hlength⟩ := ih hstep
    refine ⟨hafter, fun name => ?_⟩
    have hone := hmore name
    have hrest := hlength name
    show (((w.step a).1.after as).database.rows name).length = _
    rw [hrest, hone, stored, Nat.add_assoc]
    rfl

/-- A database that was just installed is intact: no row is there but the version. -/
theorem fresh_intact : fresh.database.Intact := by
  have hempty : ∀ t ∈ fresh.database.tables, t.layout ≠ .schemaVersion → t.rows = [] := by decide
  have hkeys : ∀ t ∈ fresh.database.tables, t.layout = .schemaVersion →
      (∀ c ∈ t.layout.columns, c.isKey = true) ∧ t.layout.references = [] := by decide
  have hentities : ∀ l ∈ Layout.entities, fresh.database.table? l.name = some (.empty l) := by decide
  refine ⟨by decide, ⟨by decide, by decide, ?_, ?_⟩, ?_, by decide⟩
  · intro t ht
    by_cases hl : t.layout = .schemaVersion
    · exact .of_keys (hkeys t ht hl).1
    · exact .of_rows_eq_nil (hempty t ht hl)
  · intro t ht r hr x hx
    by_cases hl : t.layout = .schemaVersion
    · rw [(hkeys t ht hl).2] at hx
      cases hx
    · rw [hempty t ht hl] at hr
      cases hr
  · intro l hl t ht
    cases (hentities l hl).symm.trans ht
    rfl

end Site

/-- The integrity of the store, in six parts, after every run of several handles from a database just installed, whether
calls succeed or fail.
1. References lead to rows: every commit and every job has the number of a repository, every job the number of a commit or
   null, every review that of a job and every response that of a commit.
2. Paths of repositories, hashes of commits and jobs of reviews are different from each other.
3. Every job has one of the statuses.
4. The current version alone is recorded.
5. The numbers of each of the five entities are 1, 2, 3 and so on up to the count of actions that stored a row there.
6. Such an action is the only one of its call: what is left of the call is one statement at most, which stores nothing. -/
theorem store_integrity (as : List Action) :
    let db := (Site.fresh.after as).database
    ((∀ r ∈ db.rows "commits", ∃ x ∈ db.rows "repos", r.cell "repo_id" = .int x.id) ∧
      (∀ r ∈ db.rows "review_jobs", ∃ x ∈ db.rows "repos", r.cell "repo_id" = .int x.id) ∧
      (∀ r ∈ db.rows "review_jobs", r.cell "commit_id" = .null ∨ ∃ x ∈ db.rows "commits", r.cell "commit_id" = .int x.id) ∧
      (∀ r ∈ db.rows "reviews", ∃ x ∈ db.rows "review_jobs", r.cell "job_id" = .int x.id) ∧
      ∀ r ∈ db.rows "responses", ∃ x ∈ db.rows "commits", r.cell "commit_id" = .int x.id) ∧
    (((db.rows "repos").map (·.cell "root_path")).Nodup ∧ ((db.rows "commits").map (·.cell "sha")).Nodup ∧
      ((db.rows "reviews").map (·.cell "job_id")).Nodup) ∧
    (∀ r ∈ db.rows "review_jobs", ∃ s : JobStatus, r.HasStatus s) ∧
    db.rows "schema_version" = [⟨2, []⟩] ∧
    (∀ name ∈ ["repos", "commits", "review_jobs", "reviews", "responses"],
      (db.rows name).map (·.id) = (List.range (Site.fresh.stored name as)).map fun (k : Nat) => (k : Int) + 1) ∧
    ∀ a, ((Site.fresh.after as).call a).stores? ((Site.fresh.after as).connection a) a.now ≠ none →
      ∀ call, ((Site.fresh.after as).step a).1.calls a.handle = some call → ∀ (c : Connection) (now : Timestamp),
        call.stores? c now = none ∧ ∃ answer, (call.run c now).1 = .answered answer := by
  intro db
  obtain ⟨hintact, hlength⟩ := Site.after_intact Site.fresh_intact as
  have hrepos : Layout.repos ∈ Layout.entities := by decide
  have hcommits : Layout.commits ∈ Layout.entities := by decide
  have hjobs : Layout.jobs ∈ Layout.entities := by decide
  have hreviews : Layout.reviews ∈ Layout.entities := by decide
  have hresponses : Layout.responses ∈ Layout.entities := by decide
  refine ⟨⟨?_, ?_, ?_, ?_, ?_⟩, ⟨?_, ?_, ?_⟩, fun r hr => hintact.exists_status hr, hintact.version, ?_, ?_⟩
  · exact fun r hr => hintact.exists_parent (c := .linkRequired "repo_id" "repos") hcommits (by decide) rfl rfl rfl hr
  · exact fun r hr => hintact.exists_parent (c := .linkRequired "repo_id" "repos") hjobs (by decide) rfl rfl rfl hr
  · exact fun r hr => hintact.null_or_parent (c := .link "commit_id" "commits") hjobs (by decide) rfl rfl hr
  · exact fun r hr => hintact.exists_parent (c := { Column.linkRequired "job_id" "review_jobs" with unique := true }) hreviews
      (by decide) rfl rfl rfl hr
  · exact fun r hr => hintact.exists_parent (c := .linkRequired "commit_id" "commits") hresponses (by decide) rfl rfl rfl hr
  · exact hintact.nodup_cells (c := .textUnique "root_path") hrepos (by decide) rfl rfl rfl
  · exact hintact.nodup_cells (c := .textUnique "sha") hcommits (by decide) rfl rfl rfl
  · exact hintact.nodup_cells (c := { Column.linkRequired "job_id" "review_jobs" with unique := true }) hreviews (by decide)
      rfl rfl rfl
  · intro name hname
    have hnames : ["repos", "commits", "review_jobs", "reviews", "responses"] = Layout.entities.map (·.name) := by decide
    rw [hnames] at hname
    obtain ⟨l, hl, rfl⟩ := List.mem_map.mp hname
    have hnone : ∀ l ∈ Layout.entities, Site.fresh.database.rows l.name = [] := by decide
    have hcount := hlength l.name
    rw [hnone l hl, List.length_nil, Nat.zero_add] at hcount
    rw [hintact.ids_eq hl, hcount]
  · intro a hstores call hcall c now
    exact Site.calls_of_stores hstores hcall c now

/-- A job for a repository that is not there is refused and uses no number: the next one is the first that is stored. -/
example :
    let register : Action := ⟨0, .registerRepo (.ofString "/work"), .epoch, false⟩
    let enqueue : Action := ⟨1, .enqueue ⟨1, none, "main", "codex"⟩, .epoch, false⟩
    Site.fresh.stored "review_jobs" [enqueue, register, register, register, enqueue] = 1 := by decide +kernel

end ReviewQueue
