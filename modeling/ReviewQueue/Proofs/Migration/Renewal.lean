import ReviewQueue.Proofs.Queue.Statements
import ReviewQueue.Proofs.Store.Layouts
import ReviewQueue.Store.Migration

/-!
# Jobs written anew

The rows of old jobs are written one by one into a table of the current layout. A row whose status is one of the four
words is written with its number and its cells, the reference under its new name; another row is refused, and nothing
else can be wrong with it.
-/

namespace ReviewQueue

namespace Row

/-- A row of old jobs with its reference under the current name. -/
def withGitRef (r : Row) : Row :=
  { r with cells := r.cells.map fun (name, x) => (if name = "commit_sha" then "git_ref" else name, x) }

/-- Whether the status of a row is one of the four words. -/
def HasKnownStatus (r : Row) : Prop := ∃ s, r.HasStatus s

/-- Cells under different names are those that their names find. -/
theorem cells_eq_lookup {cells : List (String × Cell)} (h : (cells.map (·.1)).Nodup) :
    cells = (cells.map (·.1)).map fun name => (name, (cells.lookup name).getD .null) := by
  induction cells with
  | nil => rfl
  | cons entry cells ih =>
    obtain ⟨n, x⟩ := entry
    rw [List.map_cons, List.nodup_cons] at h
    rw [List.map_cons, List.map_cons, List.lookup_cons_self, Option.getD_some]
    congr 1
    refine (ih h.2).trans (List.map_congr_left fun name hname => ?_)
    have hne : (name == n) = false := by simpa using fun e : name = n => h.1 (e ▸ hname)
    rw [List.lookup_cons, hne]

/-- A row that fits has the cells that the names of its layout find. -/
theorem Fits.cells_eq {r : Row} {l : Layout} (h : r.Fits l) (hl : l.distinct = true) :
    r.cells = ((l.columns.filter (!·.isKey)).map (·.name)).map fun name => (name, r.cell name) := by
  have hnames : r.cells.map (·.1) = (l.columns.filter (!·.isKey)).map (·.name) := h.names
  have hnodup : (r.cells.map (·.1)).Nodup := by
    rw [hnames]
    exact (of_decide_eq_true hl : (l.columns.map (·.name)).Nodup).sublist (List.filter_sublist.map _)
  rw [← hnames]
  exact cells_eq_lookup hnodup

end Row

namespace Migration

/-- The record as which a row of old jobs is written anew. -/
def recordOf (r : Row) : Record := r.record (Layout.oldJobs.pick oldColumns)

/-- What is wrong with a row whose status is none of the four words. -/
def unknownStatus : Fault := .notAmong "status" (JobStatus.all.map JobStatus.word)

variable {r : Row}

theorem cells_renewal (r : Row) : (renewal (recordOf r)).cells = [("id", .int r.id), ("repo_id", r.cell "repo_id"),
    ("commit_id", r.cell "commit_id"), ("git_ref", r.cell "commit_sha"), ("agent", r.cell "agent"), ("status", r.cell "status"),
    ("enqueued_at", r.cell "enqueued_at"), ("started_at", r.cell "started_at"), ("finished_at", r.cell "finished_at"),
    ("worker_id", r.cell "worker_id"), ("error", r.cell "error")] := by
  have hpick : Layout.oldJobs.pick oldColumns = Layout.oldJobs.columns := by decide
  unfold renewal recordOf
  rw [hpick]
  rfl

/-- The column of old jobs that a column of jobs is written from. -/
def oldName (name : String) : String := if name = "git_ref" then "commit_sha" else name

/-- A column is given the cell of the row under its old name. -/
theorem cellFor_renewal (hr : r.Fits .oldJobs) : ∀ c ∈ (Layout.jobsNamed scratch).columns, c.isKey = false →
    Layout.cellFor (renewal (recordOf r)).cells c = r.cell (oldName c.name) := by
  have hkinds : ∀ c ∈ Layout.oldJobs.columns, c.isKey = false → (r.cell c.name).asKind c.kind = r.cell c.name := by
    intro c hc hk
    rw [← Row.get_of_isKey_false r hk]
    exact hr.kinds c hc
  simp only [Layout.oldJobs, List.forall_mem_cons] at hkinds
  obtain ⟨-, hrepo, hcommit, href, hagent, hstatus, henqueued, hstarted, hfinished, hworker, herror, -⟩ := hkinds
  simp only [Layout.jobsNamed, List.forall_mem_cons]
  refine ⟨fun h => (by cases h), fun _ => Eq.trans ?_ (hrepo rfl), fun _ => Eq.trans ?_ (hcommit rfl),
    fun _ => Eq.trans ?_ (href rfl), fun _ => Eq.trans ?_ (hagent rfl), fun _ => Eq.trans ?_ (hstatus rfl),
    fun _ => Eq.trans ?_ (henqueued rfl), fun _ => Eq.trans ?_ (hstarted rfl), fun _ => Eq.trans ?_ (hfinished rfl),
    fun _ => Eq.trans ?_ (hworker rfl), fun _ => Eq.trans ?_ (herror rfl), fun _ h => (by cases h)⟩ <;>
    simp [cells_renewal, Layout.cellFor, Column.settle, Column.answersTo, foldedName, Column.textRequired, Column.text,
      Column.linkRequired, Column.link]

/-- The new row is the old one with its reference under the current name. -/
theorem row_renewal (hr : r.Fits .oldJobs) : (renewal (recordOf r)).row (Layout.jobsNamed scratch) r.id = r.withGitRef := by
  have hnew : ((Layout.jobsNamed scratch).columns.filter (!·.isKey)).map (·.name) = ["repo_id", "commit_id", "git_ref", "agent",
      "status", "enqueued_at", "started_at", "finished_at", "worker_id", "error"] := by decide
  have hold : (Layout.oldJobs.columns.filter (!·.isKey)).map (·.name) = ["repo_id", "commit_id", "commit_sha", "agent", "status",
      "enqueued_at", "started_at", "finished_at", "worker_id", "error"] := by decide
  have hcells : ((Layout.jobsNamed scratch).columns.filter (!·.isKey)).map
      (fun c => (c.name, Layout.cellFor (renewal (recordOf r)).cells c)) =
      (((Layout.jobsNamed scratch).columns.filter (!·.isKey)).map (·.name)).map fun name => (name, r.cell (oldName name)) := by
    rw [List.map_map]
    refine List.map_congr_left ?_
    intro c hc
    obtain ⟨hmem, hk⟩ := List.mem_filter.mp hc
    rw [cellFor_renewal hr c hmem (by simpa using hk)]
    rfl
  unfold Insertion.row Row.withGitRef
  rw [hcells, hr.cells_eq (by decide), hnew, hold]
  simp [oldName]

/-- The new row has the number of the old one. -/
theorem number_renewal (r : Row) {u : Table} (hl : u.layout = .jobsNamed scratch) :
    (renewal (recordOf r)).number u = .ok r.id := by
  have hkey : (Layout.jobsNamed scratch).columns.find? (·.isKey) = some (.key "id") := by decide
  have hid : Layout.cellFor (renewal (recordOf r)).cells (.key "id") = .int r.id := by
    simp [cells_renewal, Layout.cellFor, Column.answersTo, foldedName, Column.key]
  unfold Insertion.number
  rw [hl, hkey]
  simp only [hid]

theorem admits_status {x : Cell} (hx : x ≠ .null) : Column.status.admits x = true ↔ ∃ s : JobStatus, x = s.cell := by
  unfold Column.admits
  simp only [Column.status, hx, Bool.or_eq_true, decide_eq_true_eq, List.any_map, List.any_eq_true, Function.comp_apply]
  constructor
  · rintro ((h | h) | ⟨s, -, hs⟩)
    · cases h
    · exact absurd h (by simp)
    · exact ⟨s, hs⟩
  · rintro ⟨s, hs⟩
    exact Or.inr ⟨s, s.mem_all, hs⟩

/-- The one thing that can be wrong with the cells of the new row is the status. -/
theorem cellStop?_renewal (hr : r.Fits .oldJobs) :
    (r.HasKnownStatus → (renewal (recordOf r)).cellStop? guard (.jobsNamed scratch) = none) ∧
    (¬r.HasKnownStatus → (renewal (recordOf r)).cellStop? guard (.jobsNamed scratch) =
      some (.refused unknownStatus)) := by
  have hcell := cellFor_renewal hr
  -- a column that is required now was required before
  have hrequired : ∀ c ∈ (Layout.jobsNamed scratch).columns, c.isKey = false → c.required = true →
      r.cell (oldName c.name) ≠ .null := by
    have hcolumn : ∀ c ∈ (Layout.jobsNamed scratch).columns, c.isKey = false → c.required = true →
        ∃ x ∈ Layout.oldJobs.columns, x.isKey = false ∧ x.required = true ∧ x.name = oldName c.name := by decide
    intro c hc hk hreq
    obtain ⟨x, hx, hxk, hxreq, hname⟩ := hcolumn c hc hk hreq
    rw [← hname, ← Row.get_of_isKey_false r hxk]
    exact hr.required x hx hxreq
  have hnull : ((Layout.jobsNamed scratch).columns.filter (!·.isKey)).find?
      (fun c => c.required && Layout.cellFor (renewal (recordOf r)).cells c = .null) = none := by
    refine List.find?_eq_none.mpr fun c hc => ?_
    obtain ⟨hmem, hk⟩ := List.mem_filter.mp hc
    have hk : c.isKey = false := by simpa using hk
    rw [hcell c hmem hk]
    simpa using hrequired c hmem hk
  -- only the column of the status has words
  have hwords : ∀ c ∈ (Layout.jobsNamed scratch).columns, c = Column.status ∨ c.among = [] := by decide
  have hstatus : Column.status ∈ (Layout.jobsNamed scratch).columns := by decide
  have hadmits : Column.status.admits (Layout.cellFor (renewal (recordOf r)).cells Column.status) = true ↔ r.HasKnownStatus := by
    rw [hcell _ hstatus rfl]
    exact admits_status (hrequired _ hstatus rfl rfl)
  unfold Insertion.cellStop? Layout.stop?
  simp only [hnull]
  constructor
  · intro hknown
    rw [List.find?_eq_none.mpr fun c hc => ?_, Option.map_none]
    obtain ⟨hmem, -⟩ := List.mem_filter.mp hc
    rcases hwords c hmem with rfl | hnone
    · simp [hadmits.mpr hknown]
    · simp [Column.admits, hnone]
  · intro hunknown
    have hfails : (guard.words && !Column.status.admits (Layout.cellFor (renewal (recordOf r)).cells Column.status)) = true := by
      simpa [guard] using fun h => hunknown (hadmits.mp h)
    cases hf : ((Layout.jobsNamed scratch).columns.filter (!·.isKey)).find?
        (fun c => guard.words && !c.admits (Layout.cellFor (renewal (recordOf r)).cells c)) with
    | none => exact absurd hfails (List.find?_eq_none.mp hf _ (List.mem_filter.mpr ⟨hstatus, rfl⟩))
    | some c =>
      rcases hwords c (List.mem_filter.mp (List.mem_of_find?_eq_some hf)).1 with rfl | hnone
      · rfl
      · have hc := List.find?_some hf
        simp [Column.admits, hnone] at hc

/-! ## What the new row is -/

/-- The new row shows the old cells, that of the reference under its current name. -/
theorem cell_withGitRef (hr : r.Fits .oldJobs) : ∀ c ∈ Layout.jobs.columns, c.isKey = false →
    r.withGitRef.cell c.name = r.cell (oldName c.name) := by
  intro c hc hk
  have hc : c ∈ (Layout.jobsNamed scratch).columns := hc
  rw [← row_renewal hr, Insertion.cell_row (by decide) r.id hc hk]
  exact cellFor_renewal hr c hc hk

/-- The new row fits the current layout if its status is one of the four words. -/
theorem fits_withGitRef (hr : r.Fits .oldJobs) (hknown : r.HasKnownStatus) : r.withGitRef.Fits .jobs := by
  have hfits : r.withGitRef.Fits (Layout.jobsNamed scratch) := by
    rw [← row_renewal hr]
    exact Insertion.row_fits (by decide) ((cellStop?_renewal hr).1 hknown) r.id
  exact ⟨hfits.names, hfits.kinds, hfits.required⟩

/-! ## Row by row -/

variable {db : Database} {u : Table}

/-- A row after all that were written is added to the end, or refused for its status. -/
theorem run_renewal (hu : db.table? scratch = some u) (hl : u.layout = .jobsNamed scratch) (hr : r.Fits .oldJobs)
    (hlast : ∀ x ∈ u.rows, x.id < r.id) :
    (r.HasKnownStatus → ∃ a new, (renewal (recordOf r)).run guard db = .ok (a, db.put new) ∧ new.layout = .jobsNamed scratch ∧
      new.rows = u.rows ++ [r.withGitRef]) ∧
    (¬r.HasKnownStatus → (renewal (recordOf r)).run guard db = .error unknownStatus) := by
  obtain ⟨hknown, hunknown⟩ := cellStop?_renewal hr
  have hnumber := number_renewal r hl
  constructor
  · intro h
    have hunique : ∀ c ∈ (Layout.jobsNamed scratch).columns, c.unique = false := by decide
    have hstrict : u.layout.isStrict = true := by rw [hl]; decide
    have hdiff := (Insertion.rival?_eq_none_iff (s := renewal (recordOf r)) hstrict
      (r := (renewal (recordOf r)).row u.layout r.id) fun x hx => Int.ne_of_lt (hlast x hx)).mpr fun c hc hu => by
        rw [hl] at hc
        rw [hunique c hc] at hu
        cases hu
    obtain ⟨new, hinsert, hnl, hrows⟩ :=
      Table.exists_insert? ((renewal (recordOf r)).row_shaped u.layout r.id) hlast
    have hadds : (renewal (recordOf r)).Adds guard db u new r.id (db.put new) :=
      ⟨hu, hnumber, by rw [hl]; exact hknown h, Insertion.place_of_insert? hstrict hinsert hdiff, rfl⟩
    have hrun := Insertion.run_eq hadds
    rw [if_neg (by simp [guard])] at hrun
    rw [hl, row_renewal hr] at hrows
    exact ⟨_, new, hrun, hnl.trans hl, hrows⟩
  · intro h
    exact Insertion.run_eq_error hu hnumber (by rw [hl]; exact hunknown h)

/-- Rows after all that were written are added to the end in their order; the first whose status is no word is
refused. -/
theorem foldlM_renewal (rows : List Row) (hu : db.table? scratch = some u) (hl : u.layout = .jobsNamed scratch)
    (hfits : ∀ r ∈ rows, r.Fits .oldJobs) (hasc : rows.Pairwise (·.id < ·.id))
    (hlast : ∀ x ∈ u.rows, ∀ r ∈ rows, x.id < r.id) :
    ((∀ r ∈ rows, r.HasKnownStatus) → ∃ db' new,
      (rows.map recordOf).foldlM (fun db old => do return (← (renewal old).run guard db).2) db = .ok db' ∧
      db'.table? scratch = some new ∧ new.layout = .jobsNamed scratch ∧ new.rows = u.rows ++ rows.map (·.withGitRef) ∧
      (∀ name, name ≠ scratch → db'.table? name = db.table? name) ∧ db'.indexes = db.indexes) ∧
    ((∃ r ∈ rows, ¬r.HasKnownStatus) →
      (rows.map recordOf).foldlM (fun db old => do return (← (renewal old).run guard db).2) db = .error unknownStatus) := by
  induction rows generalizing db u with
  | nil =>
    refine ⟨fun _ => ⟨db, u, rfl, hu, hl, by simp, fun _ _ => rfl, rfl⟩, ?_⟩
    rintro ⟨r, hr, -⟩
    cases hr
  | cons r rows ih =>
    obtain ⟨hr, hrows⟩ := List.pairwise_cons.mp hasc
    obtain ⟨hknown, hunknown⟩ := run_renewal hu hl (hfits r (by simp)) fun x hx => hlast x hx r (by simp)
    rw [List.map_cons, List.foldlM_cons]
    by_cases hs : r.HasKnownStatus
    · obtain ⟨a, new, hrun, hnl, hnew⟩ := hknown hs
      rw [hrun]
      have hname : new.name = scratch := congrArg Layout.name hnl
      have hput : (db.put new).table? scratch = some new := by
        rw [← hname]
        exact Database.table?_put_self (u := u) (by rw [hname]; exact hu)
      obtain ⟨hall, hsome⟩ := ih hput hnl (fun x hx => hfits x (by simp [hx])) hrows fun x hx y hy => by
        rw [hnew] at hx
        rcases List.mem_append.mp hx with hx | hx
        · exact hlast x hx y (by simp [hy])
        · cases List.mem_singleton.mp hx
          exact hr y hy
      refine ⟨?_, fun ⟨x, hx, hxs⟩ => ?_⟩
      · intro h
        obtain ⟨db', last, hfold, hscratch, hll, hlrows, hothers, hindexes⟩ := hall fun x hx => h x (by simp [hx])
        refine ⟨db', last, hfold, hscratch, hll, ?_, ?_, hindexes⟩
        · rw [hlrows, hnew, List.map_cons, List.append_assoc]
          rfl
        · intro name hn
          rw [hothers name hn]
          exact Database.table?_put_of_ne (by rw [hname]; exact hn)
      · rcases List.mem_cons.mp hx with rfl | hx
        · exact absurd hs hxs
        · exact hsome ⟨x, hx, hxs⟩
    · refine ⟨fun h => absurd (h r (by simp)) hs, fun _ => ?_⟩
      rw [hunknown hs]
      rfl

end Migration
end ReviewQueue
