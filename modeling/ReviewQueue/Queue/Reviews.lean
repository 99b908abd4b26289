import ReviewQueue.Store.Connection
import ReviewQueue.Time.JulianDay
import ReviewQueue.Queue.Jobs

/-!
# Reviews

A review is found by its job, or by a commit: of the jobs that are done and belong to the commit, the one that finished last
counts. Finish times are compared as instants, whatever their offsets; a time that is no instant comes before all others.
-/

namespace ReviewQueue

/-- A review with what decides between the reviews of a commit. -/
structure Candidate where
  record : Record
  /-- When its job finished. -/
  finished : Option Int
  /-- The number of its job. -/
  job : Cell
  deriving Repr

namespace Candidate

/-- Whether a candidate goes before another: its job finished later, or at the same time and has the greater number. -/
def beats (a b : Candidate) : Bool :=
  match a.finished, b.finished with
  | some x, some y => y < x || (x = y && !a.job.le b.job)
  | some _, none => true
  | none, some _ => false
  | none, none => !a.job.le b.job

/-- The candidate that goes before the others; of equals the first. -/
def best? : List Candidate → Option Candidate
  | [] => none
  | x :: xs => some (xs.foldl (fun a b => if b.beats a then b else a) x)

end Candidate

namespace Connection

/-- A cell of one column compared with a cell of another: where one of the columns is for numbers, so is the other for the
comparison. -/
def joins (a : Column) (x : Cell) (b : Column) (y : Cell) : Bool :=
  if a.kind.isNumeric || b.kind.isNumeric then Cell.same x.asNumber y.asNumber else Cell.same x y

/-- Faults of the columns of a table that is called by another name. -/
def unknownIn (l : Layout) (alias_ : String) (names : List String) : List Fault :=
  (names.filter fun name => (l.column? name).isNone).map fun name => .noColumn (alias_ ++ "." ++ name)

/-- The faults of looking for the review of a commit. -/
def candidateFaults (reviews jobs commits : Layout) : List Fault :=
  unknownIn reviews "r" Review.columns ++ unknownIn commits "c" ["sha"] ++ unknownIn jobs "j" ["status", "id"] ++
    unknownIn reviews "r" ["job_id"] ++ unknownIn commits "c" ["id"] ++ unknownIn jobs "j" ["commit_id", "finished_at"]

/-- The reviews of the done jobs of a commit. -/
def candidates (now : Timestamp) (sha : String) (reviews jobs commits : Table) : List Candidate :=
  match reviews.layout.column? "job_id", jobs.layout.column? "id", jobs.layout.column? "commit_id",
    jobs.layout.column? "finished_at", commits.layout.column? "id" with
  | some jobId, some jobKey, some commitId, some finishedAt, some commitKey =>
    let wanted := commits.rows.filter (·.hasAll commits.layout [("sha", .ofString sha)])
    let done := jobs.rows.filter fun j => j.hasAll jobs.layout [("status", JobStatus.done.cell)]
    reviews.rows.flatMap fun r =>
      (done.filter fun j => joins jobKey (j.get jobKey) jobId (r.get jobId)).flatMap fun j =>
        (wanted.filter fun w => joins commitKey (w.get commitKey) commitId (j.get commitId)).map fun _ => {
          record := r.record (reviews.layout.pick Review.columns)
          finished := JulianDay.ofCell? (JulianDay.ofTimestamp now) (j.get finishedAt)
          job := j.get jobKey }
  | _, _, _, _, _ => []

/-- Find the review of the job of a commit that finished last. -/
def findReviewBySha (c : Connection) (now : Timestamp) (sha : String) : Except StoreError (Option Review) := liftFault do
  let reviews ← c.database.need "reviews"
  let jobs ← c.database.need "review_jobs"
  let commits ← c.database.need "commits"
  match candidateFaults reviews.layout jobs.layout commits.layout with
  | f :: _ => .error f
  | [] => match Candidate.best? (candidates now sha reviews jobs commits) with
    | none => return none
    | some best => return some (← Review.ofRecord best.record)

/-- Find the review of a job. -/
def findReviewByJob (c : Connection) (job : Int) : Except StoreError (Option Review) :=
  liftFault (c.first ⟨"reviews", Review.columns, [("job_id", .int job)]⟩ Review.ofRecord)

end Connection
end ReviewQueue
