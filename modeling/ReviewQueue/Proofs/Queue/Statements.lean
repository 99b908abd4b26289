import ReviewQueue.Proofs.Store.Insertions
import ReviewQueue.Queue.Operation

/-!
# The statements of the queue in the current layout

Every statement of the queue finds its tables and columns where the layout is the current one. The statements that
change jobs are plain: each chooses jobs by their status, and gives a status and the columns that go with it. The
columns of a job that say what is to be done are given once, when it is queued.
-/

namespace ReviewQueue

namespace Database

/-- Whether each of some layouts is that of a table. Other tables may be there too. -/
def InLayout (db : Database) (layouts : List Layout) : Prop := ∀ l ∈ layouts, ∃ t, db.table? l.name = some t ∧ t.layout = l

/-- Whether the tables of the current version are there, under their layouts, whatever their rows. -/
def IsCurrent (db : Database) : Prop := db.InLayout Layout.current

/-- The tables are looked up one by one. -/
theorem isCurrent_iff {db : Database} : db.IsCurrent ↔ ∀ l ∈ Layout.current, (db.table? l.name).map (·.layout) = some l := by
  simp only [IsCurrent, InLayout, Option.map_eq_some_iff]

instance (db : Database) : Decidable db.IsCurrent := decidable_of_iff _ isCurrent_iff.symm

/-- A database stays in its layouts if no name comes to mean a table of another layout. -/
theorem IsCurrent.of_layouts {db db' : Database} (h : db.IsCurrent)
    (hsame : ∀ name t, db.table? name = some t → ∃ t', db'.table? name = some t' ∧ t'.layout = t.layout) : db'.IsCurrent := by
  intro l hl
  obtain ⟨t, ht, htl⟩ := h l hl
  obtain ⟨t', ht', hl'⟩ := hsame l.name t ht
  exact ⟨t', ht', hl'.trans htl⟩

/-- A table of the current version has the layout of its name. -/
theorem IsCurrent.layout_eq {db : Database} (h : db.IsCurrent) {l : Layout} (hl : l ∈ Layout.current) {t : Table}
    (ht : db.table? l.name = some t) : t.layout = l := by
  obtain ⟨u, hu, hul⟩ := h l hl
  cases hu.symm.trans ht
  exact hul

/-- In the current layouts no row gives way and no reference is put off. -/
theorem isStrict_current : ∀ l ∈ Layout.current, l.isStrict = true := by decide

/-- The tables of the current layout refuse what breaks their rules. -/
theorem IsCurrent.isStrict {db : Database} (h : db.IsCurrent) {l : Layout} (hl : l ∈ Layout.current) {t : Table}
    (ht : db.table? l.name = some t) : t.layout.isStrict = true := by
  rw [h.layout_eq hl ht]
  exact isStrict_current l hl

/-- The table of jobs. -/
theorem IsCurrent.jobs {db : Database} (h : db.IsCurrent) : ∃ t, db.table? "review_jobs" = some t ∧ t.layout = .jobs :=
  h .jobs (by simp [Layout.current])

theorem IsCurrent.reviews {db : Database} (h : db.IsCurrent) : ∃ t, db.table? "reviews" = some t ∧ t.layout = .reviews :=
  h .reviews (by simp [Layout.current])

theorem IsCurrent.repos {db : Database} (h : db.IsCurrent) : ∃ t, db.table? "repos" = some t ∧ t.layout = .repos :=
  h .repos (by simp [Layout.current])

theorem IsCurrent.commits {db : Database} (h : db.IsCurrent) : ∃ t, db.table? "commits" = some t ∧ t.layout = .commits :=
  h .commits (by simp [Layout.current])

theorem IsCurrent.responses {db : Database} (h : db.IsCurrent) : ∃ t, db.table? "responses" = some t ∧ t.layout = .responses :=
  h .responses (by simp [Layout.current])

end Database

/-- Every status is one of the four. -/
theorem JobStatus.mem_all (s : JobStatus) : s ∈ all := by cases s <;> decide

/-- Two statuses are not stored as one cell. -/
theorem JobStatus.cell_inj {s s' : JobStatus} (h : s.cell = s'.cell) : s = s' := by
  have hinj : ∀ s ∈ all, ∀ s' ∈ all, s.cell = s'.cell → s = s' := by decide
  exact hinj s s.mem_all s' s'.mem_all h

namespace Column

/-- The column of the status of jobs. -/
def status : Column :=
  { Column.textRequired "status" with default := .ofString "queued", among := JobStatus.all.map JobStatus.word }

theorem column?_status : Layout.jobs.column? "status" = some status := by decide

theorem column?_id : Layout.jobs.column? "id" = some (.key "id") := by decide

end Column

namespace Row

/-! ## Jobs by their status -/

/-- Whether a row of jobs has a status. -/
def HasStatus (r : Row) (s : JobStatus) : Prop := r.cell "status" = s.cell

instance (r : Row) (s : JobStatus) : Decidable (r.HasStatus s) := inferInstanceAs (Decidable (_ = _))

/-- A row has one status. -/
theorem HasStatus.inj {r : Row} {s s' : JobStatus} (h : r.HasStatus s) (h' : r.HasStatus s') : s = s' :=
  JobStatus.cell_inj (Eq.trans (Eq.symm h) h')

/-- A row that has a status has a cell for it. -/
theorem HasStatus.isSome_lookup {r : Row} {s : JobStatus} (h : r.HasStatus s) : (r.cells.lookup "status").isSome := by
  refine isSome_lookup_of_cell_ne_null ?_
  rw [h]
  exact Cell.ofString_ne_null s.word

/-- Choosing jobs by status chooses those that have it. -/
theorem hasAll_status (r : Row) (s : JobStatus) : r.hasAll .jobs [("status", s.cell)] = decide (r.HasStatus s) := by
  have hcell : 2 ≤ (s.cell.asKind Column.status.kind.sought).rank := Nat.le_refl 2
  rw [hasAll_singleton Column.column?_status (by decide) r hcell]
  rfl

/-- Choosing a job by number and status chooses it if it has the status. -/
theorem hasAll_id_status (r : Row) (id : Int) (s : JobStatus) :
    r.hasAll .jobs [("id", .int id), ("status", s.cell)] = decide (r.id = id ∧ r.HasStatus s) := by
  rw [hasAll_cons Column.column?_id, has_key (by decide), hasAll_status, Bool.decide_and]

/-- No job has null for a number. -/
theorem hasAll_null (r : Row) (cells : List (String × Cell)) : r.hasAll .jobs (("id", .null) :: cells) = false := by
  rw [hasAll_cons Column.column?_id, has_null, Bool.false_and]

end Row

/-- The columns of a job that say what is to be done. -/
def Job.fixedColumns : List String := ["repo_id", "commit_id", "git_ref", "agent", "enqueued_at"]

/-- The record that a row of jobs is answered as. -/
def Job.recordOf (r : Row) : Record := r.record (Layout.jobs.pick Job.columns)

/-- A statement takes jobs from one status to another: it chooses jobs of the one and gives them the other, and keeps
what says what is to be done. -/
structure Change.MovesJobs (s : Change) (source target : JobStatus) : Prop where
  table : s.table = "review_jobs"
  plain : s.isPlain .jobs = true
  cells : ∀ g, s.cellStop? g .jobs = none
  chooses : ∀ r : Row, r.hasAll .jobs s.having = true → r.HasStatus source
  gives : ∀ r : Row, r.HasStatus source → (r.given .jobs s.cells).HasStatus target
  keeps : ∀ r : Row, ∀ name ∈ Job.fixedColumns, (r.given .jobs s.cells).cell name = r.cell name

namespace Connection

/-! ## The statements that change jobs -/

/-- A job that is given a status first of all has it then. -/
theorem hasStatus_given (names : List String) {cells : List (String × Cell)} {source target : JobStatus} {r : Row}
    (hr : r.HasStatus source) (hnames : (("status", target.cell) :: cells).map (·.1) = names)
    (hstatus : Layout.jobs.columns.find? (fun c => c.name = "status" && !c.isKey && names.any (c.answersTo ·)) =
      some .status) : (r.given .jobs (("status", target.cell) :: cells)).HasStatus target := by
  unfold Row.HasStatus
  rw [Row.cell_given ((Row.find?_given .jobs hnames "status").trans hstatus) hr.isSome_lookup,
    Layout.cellFor_cons (by decide) (by decide)]
  rfl

/-- A job keeps what says what is to be done if no column of that is given a cell. -/
theorem fixed_given (names : List String) {cells : List (String × Cell)} (hnames : cells.map (·.1) = names)
    (hfixed : ∀ name ∈ Job.fixedColumns,
      Layout.jobs.columns.find? (fun c => c.name = name && !c.isKey && names.any (c.answersTo ·)) = none) (r : Row) :
    ∀ name ∈ Job.fixedColumns, (r.given .jobs cells).cell name = r.cell name := by
  intro name hname
  exact Row.cell_given_of_not_given r ((Row.find?_given .jobs hnames name).trans (hfixed name hname))

/-- A claim moves queued jobs to running. -/
theorem claiming_moves (db : Database) (now : Timestamp) (worker : String) :
    (claiming db now worker).MovesJobs .queued .running where
  table := rfl
  plain := by
    have h : (Layout.jobs.isPlain ["status", "worker_id", "started_at"] &&
      Layout.jobs.knows ["status", "worker_id", "started_at"] && Layout.jobs.knows ["id", "status"] &&
      Layout.jobs.knows Job.columns) = true := by decide
    exact h
  cells g := by
    refine Change.cellStop?_eq_none ?_
    simp [Layout.jobs, Layout.jobsNamed, Layout.isGiven, Layout.cellFor, Column.settle, claiming, Column.answersTo, foldedName,
      Column.textRequired, Column.text, Column.key, Column.link, Column.linkRequired, Cell.asKind, Cell.asText, Cell.ofString,
      JobStatus.cell, Column.admits, JobStatus.all, JobStatus.word]
  chooses r h := by
    unfold Row.hasAll claiming at h
    simp only [List.all_cons, Bool.and_eq_true] at h
    have hstatus : r.hasAll .jobs [("status", JobStatus.queued.cell)] = true := by simpa [Row.hasAll] using h.2
    simpa [Row.hasAll_status] using hstatus
  gives r h := hasStatus_given ["status", "worker_id", "started_at"] h rfl (by decide)
  keeps r := fixed_given ["status", "worker_id", "started_at"] rfl (by decide) r

/-- A resolution moves running jobs to where they end. -/
theorem finishing_moves (now : Timestamp) (id : Int) (target : JobStatus) (error : Option String) :
    (finishing now id target error).MovesJobs .running target where
  table := rfl
  plain := by
    have h : (Layout.jobs.isPlain ["status", "finished_at", "error"] &&
      Layout.jobs.knows ["status", "finished_at", "error"] && Layout.jobs.knows ["id", "status"] &&
      Layout.jobs.knows []) = true := by decide
    exact h
  cells g := by
    refine Change.cellStop?_eq_none ?_
    cases target <;>
      simp [Layout.jobs, Layout.jobsNamed, Layout.isGiven, Layout.cellFor, Column.settle, finishing, Column.answersTo, foldedName,
        Column.textRequired, Column.text, Column.key, Column.link, Column.linkRequired, Cell.asKind, Cell.asText, Cell.ofString,
        JobStatus.cell, Column.admits, JobStatus.all, JobStatus.word]
  chooses r h := by
    have hboth : r.hasAll .jobs [("id", .int id), ("status", JobStatus.running.cell)] = true := h
    rw [Row.hasAll_id_status, decide_eq_true_eq] at hboth
    exact hboth.2
  gives r h := hasStatus_given ["status", "finished_at", "error"] h rfl (by decide)
  keeps r := fixed_given ["status", "finished_at", "error"] rfl (by decide) r

/-- A recovery moves running jobs back to queued. -/
theorem requeueing_moves : requeueing.MovesJobs .running .queued where
  table := rfl
  plain := by decide
  cells g := by
    refine Change.cellStop?_eq_none ?_
    simp [Layout.jobs, Layout.jobsNamed, Layout.isGiven, Layout.cellFor, Column.settle, requeueing, Column.answersTo, foldedName,
      Column.textRequired, Column.text, Column.key, Column.link, Column.linkRequired, Cell.asKind, Cell.asText, Cell.ofString,
      JobStatus.cell, Column.admits, JobStatus.all, JobStatus.word]
  chooses r h := by
    have hstatus : r.hasAll .jobs [("status", JobStatus.running.cell)] = true := h
    rwa [Row.hasAll_status, decide_eq_true_eq] at hstatus
  gives r h := hasStatus_given ["status", "worker_id", "started_at"] h rfl (by decide)
  keeps r := fixed_given ["status", "worker_id", "started_at"] rfl (by decide) r

/-- A job that is added is queued. -/
theorem queueing_hasStatus (now : Timestamp) (r : JobRequest) (id : Int) :
    ((queueing now r).row .jobs id).HasStatus .queued := by
  have hmem : Column.status ∈ Layout.jobs.columns := by decide
  refine (Insertion.cell_row (by decide) id hmem rfl).trans ?_
  simp [Layout.cellFor, Column.settle, queueing, Column.status, Column.answersTo, foldedName, Column.textRequired, Cell.asKind,
    Cell.asText, Cell.ofString, JobStatus.cell]

/-- A job that is added gets the next number. -/
theorem queueing_number (now : Timestamp) (r : JobRequest) {t : Table} (hl : t.layout = .jobs) :
    (queueing now r).number t = .ok t.nextId := by
  refine Insertion.number_eq_nextId (.key "id") (by rw [hl]; decide) ?_
  simp [Layout.cellFor, Column.settle, queueing, Column.answersTo, foldedName, Column.key, Column.fallback, Column.isKey]

/-- A job that was queued once, with cells that it was given since. -/
def jobWith (id : Int) (cells : List (String × Cell)) : Row :=
  ((queueing .epoch ⟨1, none, "main", "codex"⟩).row .jobs id).given .jobs cells

/-! ## Which jobs they choose -/

/-- The least of some ascending numbers is the first. -/
theorem least_ascending {ids : List Int} (h : ids.Pairwise (· < ·)) :
    least (ids.map .int) = (ids.head?.map .int).getD .null := by
  cases ids with
  | nil => rfl
  | cons id ids =>
    have hle := (List.pairwise_cons.mp h).1
    show ((ids.map Cell.int).foldl (fun a b => if a.le b then a else b) (.int id)) = .int id
    clear h
    induction ids with
    | nil => rfl
    | cons x ids ih =>
      have hx : (Cell.int id).le (.int x) = true := by
        simpa [Cell.le] using Int.le_of_lt (hle x (by simp))
      rw [List.map_cons, List.foldl_cons, if_pos hx]
      exact ih fun y hy => hle y (by simp [hy])

/-- The oldest job of a status is the first row that has it. -/
theorem oldest_eq {db : Database} {t : Table} (ht : db.table? "review_jobs" = some t) (hl : t.layout = .jobs)
    (s : JobStatus) : oldest db s = ((t.rows.find? (·.HasStatus s)).map fun r => .int r.id).getD .null := by
  have hasc : ((t.rows.filter (·.HasStatus s)).map (·.id)).Pairwise (· < ·) :=
    List.pairwise_map.mpr (t.ascending.filter _)
  have hcells : (t.rows.filter (·.hasAll .jobs [("status", s.cell)])).map (·.get (.key "id")) =
      ((t.rows.filter (·.HasStatus s)).map (·.id)).map .int := by
    rw [List.map_map]
    simp only [Row.hasAll_status]
    exact List.map_congr_left fun r _ => Row.get_of_isKey r (by decide)
  unfold oldest
  simp only [ht, hl, Column.column?_id]
  rw [hcells, least_ascending hasc, List.head?_map, List.head?_filter, Option.map_map]
  rfl

end Connection
end ReviewQueue
