import ReviewQueue.Proofs.Queue.Entities
import ReviewQueue.Proofs.Queue.Growth

/-!
# No row becomes unreadable

Every statement leaves rows that can be read back, as long as the clock shows years of four digits. Commits are left out:
a commit has the time at which its author made it, which may be of any year.
-/

namespace ReviewQueue

/-- Whether the rows of jobs, repositories, reviews and responses can be read back. -/
structure Database.Readable (db : Database) : Prop where
  jobs : ∀ r ∈ db.rows "review_jobs", ∃ j, r.Shows j
  repos : ∀ r ∈ db.rows "repos", ∃ x, Repo.ofRecord (Repo.recordOf r) = .ok x
  reviews : ∀ r ∈ db.rows "reviews", ∃ x, Review.ofRecord (Review.recordOf r) = .ok x
  responses : ∀ r ∈ db.rows "responses", ∃ x, Response.ofRecord (Response.recordOf r) = .ok x

/-- A change of jobs leaves each readable if it is right for one job. -/
theorem Change.MovesJobs.shows {s : Change} {source target : JobStatus} {t : Table} {db db' : Database}
    (hs : s.MovesJobs source target) (hl : t.layout = .jobs) (hg : s.Gives db t db') (hfit : db.JobsFit)
    (hjobs : ∀ r ∈ db.rows "review_jobs", ∃ j, r.Shows j)
    (hgive : ∀ (r : Row) (j : Job), r.Fits .jobs → r.Shows j → ∃ j', (r.given .jobs s.cells).Shows j') :
    ∀ r ∈ db'.rows "review_jobs", ∃ j, r.Shows j := by
  intro x hx
  obtain ⟨r, hr, rfl⟩ := (hs.mem_rows hl hg).mp hx
  obtain ⟨j, hj⟩ := hjobs r hr
  split
  · exact hgive r j (hfit r hr) hj
  · exact ⟨j, hj⟩

/-- An effect leaves jobs that can be read back. -/
theorem Effect.shows {c : Connection} {now : Timestamp} {op : Operation} {p : Progress} {db : Database}
    (h : Effect c now op p db) (hdb : c.database.IsCurrent) (hfit : c.database.JobsFit) (hnow : now.IsPlain)
    (hjobs : ∀ r ∈ c.database.rows "review_jobs", ∃ j, r.Shows j) : ∀ r ∈ db.rows "review_jobs", ∃ j, r.Shows j := by
  obtain ⟨u, hu, hl⟩ := hdb.jobs
  have hsame : ∀ {db' : Database}, db'.table? "review_jobs" = c.database.table? "review_jobs" →
      ∀ r ∈ db'.rows "review_jobs", ∃ j, r.Shows j := by
    intro db' h r hr
    rw [Database.rows_congr h] at hr
    exact hjobs r hr
  have hends : ∀ (id : Int) (target : JobStatus) (error : Option String) (r : Row) (j : Job), r.Fits .jobs → r.Shows j →
      ∃ j', (r.given .jobs (Connection.finishing now id target error).cells).Shows j' := fun id target error r j hf hj =>
    ⟨_, Connection.finishing_holds now id target error hj.holds hf, hj.times.endedBy hnow target error⟩
  cases h with
  | aside _ same _ => exact hsame (same _ (Or.inl rfl))
  | refused agrees _ => exact hsame (agrees _)
  | missed agrees => exact hsame (agrees _)
  | waiting _ _ _ agrees => exact hsame (agrees _)
  | @enqueued request _ _ id _ adds =>
    cases hu.symm.trans adds.table
    intro r hr
    rcases (adds.mem_rows_table (by rw [hl]; decide)).mp hr with rfl | hr
    · rw [hl]
      exact ⟨_, Connection.queueing_holds now request id, request.queued_plain id hnow⟩
    · exact hjobs r hr
  | @claimed worker _ _ _ _ takes _ =>
    cases hu.symm.trans takes.table
    exact (Connection.claiming_moves ..).shows hl takes.toGives hfit hjobs fun r j hf hj =>
      ⟨_, Connection.claiming_holds c.database now worker hj.holds hf, hj.times.claimedBy hnow worker⟩
  | failed takes _ _ =>
    cases hu.symm.trans takes.table
    exact (Connection.finishing_moves ..).shows hl takes.toGives hfit hjobs (hends _ _ _)
  | @completed _ _ _ _ _ _ _ done _ _ takes _ _ adds _ =>
    cases hu.symm.trans takes.table
    have hdone := (Connection.finishing_moves ..).shows hl takes.toGives hfit hjobs (hends _ _ _)
    intro r hr
    rw [Database.rows_congr (adds.table?_of_ne (show "review_jobs" ≠ "reviews" by decide))] at hr
    exact hdone r hr
  | requeued gives =>
    cases hu.symm.trans gives.table
    exact Connection.requeueing_moves.shows hl gives hfit hjobs fun r j hf hj =>
      ⟨_, Connection.requeueing_holds hj.holds hf, hj.times.requeued⟩

namespace Database

/-- Rows stay readable if each new one is. -/
theorem Gains.readable {db db' : Database} {name : String} {p : Row → Prop} {α : Type} {read : Row → Except Fault α}
    (h : db.Gains db' name p) (hread : ∀ r ∈ db.rows name, ∃ x, read r = .ok x) (hnew : ∀ r, p r → ∃ x, read r = .ok x) :
    ∀ r ∈ db'.rows name, ∃ x, read r = .ok x := by
  intro r hr
  rcases h.added r hr with hr | hp
  · exact hread r hr
  · exact hnew r hp

/-- What holds of a database after every run: it has the current layout, and its rows fit and can be read back. -/
structure Sound (db : Database) : Prop where
  current : db.IsCurrent
  jobsFit : db.JobsFit
  readable : db.Readable

/-- A database just installed is sound: it has no rows of these tables. -/
theorem sound_current : Database.current.Sound := by
  have hnone : ∀ name ∈ ["review_jobs", "repos", "reviews", "responses"], Database.current.rows name = [] := by decide
  have hall : ∀ name ∈ ["review_jobs", "repos", "reviews", "responses"], ∀ (p : Row → Prop), ∀ r ∈ Database.current.rows name,
      p r := by
    intro name hname p r hr
    rw [hnone name hname] at hr
    cases hr
  exact ⟨by decide, hall _ (by decide) _, hall _ (by decide) _, hall _ (by decide) _, hall _ (by decide) _,
    hall _ (by decide) _⟩

/-- The next statement of a call leaves a sound database, if the clock shows a plain time. -/
theorem Sound.run {c : Connection} {now : Timestamp} (h : c.database.Sound) (hnow : now.IsPlain) (call : Call) :
    (call.run c now).2.Sound := by
  have heffect := call.run_effect h.current now
  obtain ⟨hrepos, -, hresponses, hreviews⟩ := call.run_gains h.current now
  refine ⟨heffect.isCurrent h.current, heffect.jobsFit h.current h.jobsFit,
    heffect.shows h.current h.jobsFit hnow h.readable.jobs, hrepos.readable h.readable.repos ?_,
    hreviews.readable h.readable.reviews ?_, hresponses.readable h.readable.responses ?_⟩
  · rintro r ⟨path, id, rfl⟩
    exact ⟨_, Repo.ofRecord_recordOf (Connection.registration_holds now path id) hnow⟩
  · rintro r ⟨job, text, id, rfl⟩
    exact ⟨_, Review.ofRecord_recordOf (Connection.reviewing_holds now job id text) hnow⟩
  · rintro r ⟨reply, id, rfl⟩
    exact ⟨_, Response.ofRecord_recordOf (Connection.responding_holds now reply id) hnow⟩

end Database

/-! ## Paths that are there -/

namespace Connection

variable {c : Connection} {now : Timestamp} {path : Path}

/-- The one column of repositories of which no two cells are equal is that of the path, and its cell is the path. -/
theorem cellFor_registration (now : Timestamp) (path : Path) : ∀ x ∈ Layout.repos.columns, x.unique = true → x.isKey = false →
    x.name = "root_path" ∧ Layout.cellFor (registration now path).cells x = .ofString path.display := by
  have hunique : ∀ x ∈ Layout.repos.columns, x.unique = true → x.isKey = false → x = .textUnique "root_path" := by decide
  intro x hx hu hk
  rw [hunique x hx hu hk]
  exact ⟨rfl, Layout.cellFor_cons (c := .textUnique "root_path") (by decide) (by decide) _ _⟩

/-- A path is registered under the next number. -/
theorem number_registration (now : Timestamp) (path : Path) {t : Table} (hl : t.layout = .repos) :
    (registration now path).number t = .ok t.nextId := by
  refine Insertion.number_eq_nextId (.key "id") (by rw [hl]; decide) ?_
  simp [registration, Layout.cellFor, Column.settle, Column.fallback, Column.answersTo, foldedName, Column.key, Column.isKey]

/-- After the statement that registers a path there is a row of the path: the new one, or the one for which it was left
out. -/
theorem exists_row_of_registration {a : Option Record} {db : Database} (hdb : c.database.IsCurrent)
    (h : c.insert (registration now path) = .ok (a, db)) :
    ∃ r ∈ db.rows "repos", r.cell "root_path" = .ofString path.display := by
  obtain ⟨t, ht, hl⟩ := hdb.repos
  rcases insert_cases hdb (l := .repos) (by decide) rfl h with ⟨-, rfl, u, id, x, hu, hid, hrival, -⟩ | ⟨u, new, id, hadds, -, -⟩
  · cases ht.symm.trans hu
    obtain rfl : t.nextId = id := Except.ok.inj ((number_registration now path hl).symm.trans hid)
    obtain ⟨hx, hunique, hk, r, hr, hsame⟩ := Insertion.rival?_nextId_eq_some (by rw [hl]; decide) hrival
    rw [hl] at hx
    obtain ⟨hname, hcell⟩ := cellFor_registration now path x hx hunique hk
    rw [hname, hcell, Cell.same_eq (show 2 ≤ (Cell.ofString path.display).rank from Nat.le_refl 2), decide_eq_true_eq] at hsame
    refine ⟨r, ?_, hsame⟩
    rw [Database.rows_of_table? ht]
    exact hr
  · cases ht.symm.trans hadds.table
    refine ⟨_, (hadds.mem_rows_table (by rw [hl]; decide)).mpr (Or.inl rfl), ?_⟩
    rw [hl]
    exact (registration_holds now path id).rootPath

end Connection

/-- A call that is to find the row of its path will find it. -/
def Call.FindsPath (call : Call) (db : Database) : Prop :=
  ∀ path, call = .registered path → ∃ r ∈ db.rows "repos", r.cell "root_path" = .ofString path.display

namespace Call

variable {c : Connection} {now : Timestamp}

/-- A call that was just asked for has no row to find yet. -/
theorem findsPath_asked (op : Operation) (db : Database) : (asked op).FindsPath db := by
  rintro path ⟨⟩

/-- Rows of repositories are kept, so a path stays. -/
theorem FindsPath.run {call : Call} (h : call.FindsPath c.database) (hdb : c.database.IsCurrent) (other : Call) :
    call.FindsPath (other.run c now).2 := by
  intro path hcall
  obtain ⟨r, hr, hpath⟩ := h path hcall
  exact ⟨r, (run_gains hdb now other).1.kept r hr, hpath⟩

/-- Where a call goes on, it goes on to find a path that is there. -/
theorem run_findsPath {call call' : Call} (hdb : c.database.IsCurrent) (h : (call.run c now).1 = .next call') :
    call'.FindsPath (call.run c now).2 := by
  rintro path rfl
  cases call with
  | asked op =>
    cases op with
    | registerRepo | storeCommit | fail =>
      simp only [run] at h
      repeat' split at h
      all_goals cases h
    | _ => cases h
  | registering root =>
    simp only [run] at h ⊢
    cases hins : c.insert (Connection.registration now root) with
    | error f =>
      rw [hins] at h
      cases h
    | ok v =>
      rw [hins] at h
      cases h
      exact Connection.exists_row_of_registration hdb hins
  | storing info =>
    simp only [run] at h
    split at h <;> cases h
  | registered | stored | refusing => cases h

end Call

/-! ## Sites -/

/-- What holds of a site after every run: its database is sound, and calls under way find their paths. -/
structure Site.Sound (w : Site) : Prop where
  database : w.database.Sound
  calls : ∀ handle call, w.calls handle = some call → call.FindsPath w.database

namespace Site

variable {w : Site}

theorem Sound.findsPath (h : w.Sound) (a : Action) : (w.call a).FindsPath w.database := by
  unfold Site.call
  cases hcall : w.calls a.handle with
  | none => exact Call.findsPath_asked _ _
  | some call => exact h.calls a.handle call hcall

theorem Sound.step (h : w.Sound) {a : Action} (hnow : a.now.IsPlain) : (w.step a).1.Sound := by
  have hdb : (w.connection a).database.IsCurrent := h.database.current
  refine ⟨?_, fun handle call hcall => ?_⟩ <;> rw [step_database]
  · exact Database.Sound.run (c := w.connection a) h.database hnow _
  · rcases step_calls hcall with hnext | hbefore
    · exact Call.run_findsPath hdb hnext
    · exact (h.calls handle call hbefore).run (c := w.connection a) hdb _

/-- A site is sound after every run in which the clock shows years of four digits. -/
theorem sound (as : List Action) (hclock : ∀ a ∈ as, a.now.IsPlain) : (fresh.after as).Sound :=
  run_induction (P := fun w _ => w.Sound) (·.now.IsPlain) ⟨Database.sound_current, fun _ _ h => by cases h⟩
    (fun _ _ _ hnow hw => hw.step hnow) as hclock

end Site
end ReviewQueue
