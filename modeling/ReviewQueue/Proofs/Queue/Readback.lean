import ReviewQueue.Proofs.Queue.Statements
import ReviewQueue.Proofs.Text.Utf8
import ReviewQueue.Proofs.Time.Stored

/-!
# Jobs are read back

A row holds a job if each of its cells is what is written for the job. Such a row is read as that job, provided that its
times are plain: of years that are written with four digits, and in no leap second but at the end of a minute. A job that was
just queued is held by its row, and a claim changes the job that a row holds.
-/

namespace ReviewQueue

namespace Record

variable {r : Record} {i : Nat}

/-- An integer is read as itself. -/
theorem int_eq {n : Int} (h : (r.at_ i).2 = .int n) : r.int i = .ok n := by
  unfold int
  rw [h]

/-- A text is read as itself, with its bytes. -/
theorem textAndBytes_eq {s : String} (h : (r.at_ i).2 = .ofString s) : r.textAndBytes i = .ok (bytesOf s, s) := by
  unfold textAndBytes
  rw [h, Cell.ofString]
  simp only [Utf8.decode_bytesOf]

/-- A text is read as itself. -/
theorem text_eq {s : String} (h : (r.at_ i).2 = .ofString s) : r.text i = .ok s := by
  unfold text
  rw [textAndBytes_eq h]
  rfl

/-- A timestamp is read if its year has four digits. -/
theorem timestamp_of_year {t : Timestamp} (ht : t.HasPlainYear) (h : (r.at_ i).2 = .ofString t.stored) :
    r.timestamp i = .ok t.readBack := by
  unfold timestamp
  rw [textAndBytes_eq h]
  simp only [bind, Except.bind, Timestamp.ofStored?_stored ht]

/-- A plain timestamp is read as it was written. -/
theorem timestamp_eq {t : Timestamp} (ht : t.IsPlain) (h : (r.at_ i).2 = .ofString t.stored) :
    r.timestamp i = .ok t := by
  rw [timestamp_of_year ht.1 h, Timestamp.readBack_of_leapsLast ht.2]

/-- A timestamp of any other year is not. -/
theorem timestamp_far {t : Timestamp} (ht : ¬t.HasPlainYear) (h : (r.at_ i).2 = .ofString t.stored) :
    r.timestamp i = .error (.unreadable i .notTimestamp) := by
  unfold timestamp
  rw [textAndBytes_eq h]
  simp only [bind, Except.bind, Timestamp.ofStored?_stored_far ht]

/-- The word of a status is read as the status. -/
theorem status_eq {s : JobStatus} (h : (r.at_ i).2 = s.cell) : r.status i = .ok s := by
  unfold status
  rw [text_eq h]
  cases s <;> rfl

/-- What may be null is read back: nothing from null, and anything else as it would be read anyway. -/
theorem nullable_eq {α : Type} {read : Record → Nat → Except Fault α} {write : α → Cell} {a : Option α}
    (hnull : ∀ x, write x ≠ .null) (h : (r.at_ i).2 = .ofOption write a)
    (hread : ∀ x, a = some x → (r.at_ i).2 = write x → read r i = .ok x) : nullable read r i = .ok a := by
  unfold nullable
  cases a with
  | none =>
    have hnone : (r.at_ i).2 = .null := h
    rw [if_pos hnone]
  | some x =>
    have hx : (r.at_ i).2 = write x := h
    rw [if_neg (by rw [hx]; exact hnull x), hread x rfl hx]
    rfl

end Record

/-- A row holds a job: each cell is what is written for the job. -/
structure Row.Holds (r : Row) (j : Job) : Prop where
  id : r.id = j.id
  repoId : r.cell "repo_id" = .int j.repoId
  commitId : r.cell "commit_id" = .ofOption .int j.commitId
  gitRef : r.cell "git_ref" = .ofString j.gitRef
  agent : r.cell "agent" = .ofString j.agent
  status : r.cell "status" = j.status.cell
  enqueuedAt : r.cell "enqueued_at" = .ofString j.enqueuedAt.stored
  startedAt : r.cell "started_at" = .ofOption (fun t => .ofString t.stored) j.startedAt
  finishedAt : r.cell "finished_at" = .ofOption (fun t => .ofString t.stored) j.finishedAt
  workerId : r.cell "worker_id" = .ofOption .ofString j.workerId
  error : r.cell "error" = .ofOption .ofString j.error

namespace Job

/-- Whether the times of a job are plain. -/
structure HasPlainTimes (j : Job) : Prop where
  enqueued : j.enqueuedAt.IsPlain
  started : ∀ t, j.startedAt = some t → t.IsPlain
  finished : ∀ t, j.finishedAt = some t → t.IsPlain

/-- The record of a job has its cells in the order of the columns. -/
theorem recordOf_eq (r : Row) : recordOf r = [("id", .int r.id), ("repo_id", r.cell "repo_id"), ("commit_id", r.cell "commit_id"),
    ("git_ref", r.cell "git_ref"), ("agent", r.cell "agent"), ("status", r.cell "status"), ("enqueued_at", r.cell "enqueued_at"),
    ("started_at", r.cell "started_at"), ("finished_at", r.cell "finished_at"), ("worker_id", r.cell "worker_id"),
    ("error", r.cell "error")] := by
  have hpick : Layout.jobs.pick columns = Layout.jobs.columns := by decide
  unfold recordOf
  rw [hpick]
  rfl

/-- A row that holds a job is read as that job. -/
theorem ofRecord_recordOf {r : Row} {j : Job} (h : r.Holds j) (ht : j.HasPlainTimes) : ofRecord (recordOf r) = .ok j := by
  have hstring : ∀ s, Cell.ofString s ≠ .null := Cell.ofString_ne_null
  have hrepo : (recordOf r).int 1 = .ok j.repoId := Record.int_eq (by rw [recordOf_eq]; exact h.repoId)
  have hcommit : Record.nullable Record.int (recordOf r) 2 = .ok j.commitId :=
    Record.nullable_eq (fun _ => Cell.noConfusion) (by rw [recordOf_eq]; exact h.commitId) fun _ _ => Record.int_eq
  have hid : (recordOf r).int 0 = .ok j.id := Record.int_eq (by rw [recordOf_eq]; exact congrArg Cell.int h.id)
  have href : (recordOf r).text 3 = .ok j.gitRef := Record.text_eq (by rw [recordOf_eq]; exact h.gitRef)
  have hagent : (recordOf r).text 4 = .ok j.agent := Record.text_eq (by rw [recordOf_eq]; exact h.agent)
  have hstatus : (recordOf r).status 5 = .ok j.status := Record.status_eq (by rw [recordOf_eq]; exact h.status)
  have henqueued : (recordOf r).timestamp 6 = .ok j.enqueuedAt :=
    Record.timestamp_eq ht.enqueued (by rw [recordOf_eq]; exact h.enqueuedAt)
  have hstarted : Record.nullable Record.timestamp (recordOf r) 7 = .ok j.startedAt :=
    Record.nullable_eq (fun _ => hstring _) (by rw [recordOf_eq]; exact h.startedAt) fun t hs =>
      Record.timestamp_eq (ht.started t hs)
  have hfinished : Record.nullable Record.timestamp (recordOf r) 8 = .ok j.finishedAt :=
    Record.nullable_eq (fun _ => hstring _) (by rw [recordOf_eq]; exact h.finishedAt) fun t hs =>
      Record.timestamp_eq (ht.finished t hs)
  have hworker : Record.nullable Record.text (recordOf r) 9 = .ok j.workerId :=
    Record.nullable_eq hstring (by rw [recordOf_eq]; exact h.workerId) fun _ _ => Record.text_eq
  have herror : Record.nullable Record.text (recordOf r) 10 = .ok j.error :=
    Record.nullable_eq hstring (by rw [recordOf_eq]; exact h.error) fun _ _ => Record.text_eq
  unfold ofRecord
  simp only [bind, Except.bind, hid, hrepo, hcommit, href, hagent, hstatus, henqueued, hstarted, hfinished, hworker, herror]
  rfl

/-- Whatever job is read from a row has its number. -/
theorem id_of_ofRecord {r : Row} {j : Job} (h : ofRecord (recordOf r) = .ok j) : j.id = r.id := by
  have hid : (recordOf r).int 0 = .ok r.id := Record.int_eq (by rw [recordOf_eq]; rfl)
  unfold ofRecord at h
  simp only [bind, Except.bind, hid] at h
  repeat' split at h
  all_goals cases h
  rfl

/-- A job once a worker has claimed it. -/
def claimedBy (j : Job) (worker : String) (now : Timestamp) : Job :=
  { j with status := .running, startedAt := some now, workerId := some worker }

/-- A job that is claimed at a plain time has plain times still. -/
theorem HasPlainTimes.claimedBy {j : Job} (h : j.HasPlainTimes) {now : Timestamp} (hnow : now.IsPlain) (worker : String) :
    (j.claimedBy worker now).HasPlainTimes where
  enqueued := h.enqueued
  started t ht := by
    cases ht
    exact hnow
  finished := h.finished

/-- A job once it was taken to its end. -/
def endedBy (j : Job) (target : JobStatus) (now : Timestamp) (error : Option String) : Job :=
  { j with status := target, finishedAt := some now, error }

/-- So has one that ends at such a time, -/
theorem HasPlainTimes.endedBy {j : Job} (h : j.HasPlainTimes) {now : Timestamp} (hnow : now.IsPlain) (target : JobStatus)
    (error : Option String) : (j.endedBy target now error).HasPlainTimes where
  enqueued := h.enqueued
  started := h.started
  finished t ht := by
    cases ht
    exact hnow

/-- A job once it is queued again. -/
def requeued (j : Job) : Job := { j with status := .queued, workerId := none, startedAt := none }

/-- and one that is queued again. -/
theorem HasPlainTimes.requeued {j : Job} (h : j.HasPlainTimes) : j.requeued.HasPlainTimes where
  enqueued := h.enqueued
  started t ht := by cases ht
  finished := h.finished

end Job

/-- A row holds a job that can be read back. -/
structure Row.Shows (r : Row) (j : Job) : Prop where
  holds : r.Holds j
  times : j.HasPlainTimes

/-- The job that a request is queued as. -/
def JobRequest.queued (r : JobRequest) (id : Int) (now : Timestamp) : Job where
  id := id
  repoId := r.repoId
  commitId := r.commitId
  gitRef := r.gitRef
  agent := r.agent
  status := .queued
  enqueuedAt := now
  startedAt := none
  finishedAt := none
  workerId := none
  error := none

/-- A job that is queued at a plain time has plain times. -/
theorem JobRequest.queued_plain (r : JobRequest) (id : Int) {now : Timestamp} (hnow : now.IsPlain) :
    (r.queued id now).HasPlainTimes where
  enqueued := hnow
  started t ht := by cases ht
  finished t ht := by cases ht

namespace Connection

/-- The row of a job that is added holds the job as it was asked for. -/
theorem queueing_holds (now : Timestamp) (r : JobRequest) (id : Int) :
    ((queueing now r).row .jobs id).Holds (r.queued id now) := by
  have hcell : ∀ c ∈ Layout.jobs.columns, c.isKey = false →
      ((queueing now r).row .jobs id).cell c.name = Layout.cellFor (queueing now r).cells c := fun c hc hk =>
    Insertion.cell_row (by decide) id hc hk
  simp only [Layout.jobs, Layout.jobsNamed, List.forall_mem_cons] at hcell
  obtain ⟨-, hrepo, hcommit, href, hagent, hstatus, henqueued, hstarted, hfinished, hworker, herror, -⟩ := hcell
  refine ⟨rfl, (hrepo rfl).trans ?_, (hcommit rfl).trans ?_, (href rfl).trans ?_, (hagent rfl).trans ?_, (hstatus rfl).trans ?_,
    (henqueued rfl).trans ?_, (hstarted rfl).trans ?_, (hfinished rfl).trans ?_, (hworker rfl).trans ?_, (herror rfl).trans ?_⟩
  case refine_2 =>
    cases hc : r.commitId <;>
      simp [Layout.cellFor, Column.settle, Column.fallback, Column.isKey, queueing, JobRequest.queued, Column.answersTo,
        foldedName, Column.link, Cell.ofOption, hc]
  all_goals
    simp [Layout.cellFor, Column.settle, Column.fallback, Column.isKey, queueing, JobRequest.queued, Column.answersTo,
      foldedName, Column.textRequired, Column.text, Column.linkRequired, Cell.ofOption, JobStatus.cell]

/-- The row of a job that is claimed holds the job with its worker and the time. -/
theorem claiming_holds (db : Database) (now : Timestamp) (worker : String) {r : Row} {j : Job} (h : r.Holds j)
    (hf : r.Fits .jobs) : (r.given .jobs (claiming db now worker).cells).Holds (j.claimedBy worker now) := by
  have hcell := hf.cell_given (by decide) (claiming db now worker).cells
  simp only [Layout.jobs, Layout.jobsNamed, List.forall_mem_cons] at hcell
  obtain ⟨-, hrepo, hcommit, href, hagent, hstatus, henqueued, hstarted, hfinished, hworker, herror, -⟩ := hcell
  refine ⟨h.id, (hrepo rfl).trans ?_, (hcommit rfl).trans ?_, (href rfl).trans ?_, (hagent rfl).trans ?_, (hstatus rfl).trans ?_,
    (henqueued rfl).trans ?_, (hstarted rfl).trans ?_, (hfinished rfl).trans ?_, (hworker rfl).trans ?_, (herror rfl).trans ?_⟩ <;>
    simp [Layout.cellFor, Column.settle, Column.fallback, Column.isKey, Layout.isGiven, claiming, Job.claimedBy,
      Column.answersTo, foldedName, Column.textRequired, Column.text, Column.link, Column.linkRequired, Cell.ofOption,
      JobStatus.cell, h.repoId, h.commitId, h.gitRef, h.agent, h.enqueuedAt, h.finishedAt, h.error]

/-- The row of a job that is taken to its end holds the job with its end. -/
theorem finishing_holds (now : Timestamp) (id : Int) (target : JobStatus) (error : Option String) {r : Row} {j : Job}
    (h : r.Holds j) (hf : r.Fits .jobs) :
    (r.given .jobs (finishing now id target error).cells).Holds (j.endedBy target now error) := by
  have hcell := hf.cell_given (by decide) (finishing now id target error).cells
  simp only [Layout.jobs, Layout.jobsNamed, List.forall_mem_cons] at hcell
  obtain ⟨-, hrepo, hcommit, href, hagent, hstatus, henqueued, hstarted, hfinished, hworker, herror, -⟩ := hcell
  refine ⟨h.id, (hrepo rfl).trans ?_, (hcommit rfl).trans ?_, (href rfl).trans ?_, (hagent rfl).trans ?_, (hstatus rfl).trans ?_,
    (henqueued rfl).trans ?_, (hstarted rfl).trans ?_, (hfinished rfl).trans ?_, (hworker rfl).trans ?_, (herror rfl).trans ?_⟩
  case refine_10 =>
    cases error <;>
      simp [Layout.cellFor, Column.settle, Column.fallback, Column.isKey, Layout.isGiven, finishing, Job.endedBy,
        Column.answersTo, foldedName, Column.text, Cell.ofOption]
  all_goals
    simp [Layout.cellFor, Column.settle, Column.fallback, Column.isKey, Layout.isGiven, finishing, Job.endedBy,
      Column.answersTo, foldedName, Column.textRequired, Column.text, Column.link, Column.linkRequired, Cell.ofOption,
      JobStatus.cell, h.repoId, h.commitId, h.gitRef, h.agent, h.enqueuedAt, h.startedAt, h.workerId]

/-- The row of a job that is queued again holds the job without worker and start. -/
theorem requeueing_holds {r : Row} {j : Job} (h : r.Holds j) (hf : r.Fits .jobs) :
    (r.given .jobs requeueing.cells).Holds j.requeued := by
  have hcell := hf.cell_given (by decide) requeueing.cells
  simp only [Layout.jobs, Layout.jobsNamed, List.forall_mem_cons] at hcell
  obtain ⟨-, hrepo, hcommit, href, hagent, hstatus, henqueued, hstarted, hfinished, hworker, herror, -⟩ := hcell
  refine ⟨h.id, (hrepo rfl).trans ?_, (hcommit rfl).trans ?_, (href rfl).trans ?_, (hagent rfl).trans ?_, (hstatus rfl).trans ?_,
    (henqueued rfl).trans ?_, (hstarted rfl).trans ?_, (hfinished rfl).trans ?_, (hworker rfl).trans ?_, (herror rfl).trans ?_⟩ <;>
    simp [Layout.cellFor, Column.settle, Column.fallback, Column.isKey, Layout.isGiven, requeueing, Job.requeued,
      Column.answersTo, foldedName, Column.textRequired, Column.text, Column.link, Column.linkRequired, Cell.ofOption,
      JobStatus.cell, h.repoId, h.commitId, h.gitRef, h.agent, h.enqueuedAt, h.finishedAt, h.error]

end Connection
end ReviewQueue
