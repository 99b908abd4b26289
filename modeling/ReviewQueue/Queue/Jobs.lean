import ReviewQueue.Store.Connection
import ReviewQueue.Time.Rfc3339

/-!
# The job queue

Jobs are queued, claimed in the order of their numbers, and resolved: completed with a review or failed. A claim and a failure
are one statement each; a completion is two in one transaction, so a job is done exactly if its review was stored.
-/

namespace ReviewQueue

/-- What is known of a job that is to be queued. -/
structure JobRequest where
  repoId : Int
  commitId : Option Int
  gitRef : String
  agent : String
  deriving DecidableEq, Repr

/-- What a completed job is resolved with. -/
structure ReviewText where
  agent : String
  prompt : String
  output : String
  deriving DecidableEq, Repr

/-- The cell of a status. -/
def JobStatus.cell (s : JobStatus) : Cell := .ofString s.word

namespace Connection

/-! ## Queueing and claiming -/

/-- The statement that queues a job. -/
def queueing (now : Timestamp) (r : JobRequest) : Insertion where
  table := "review_jobs"
  cells := [("repo_id", .int r.repoId), ("commit_id", .ofOption .int r.commitId), ("git_ref", .ofString r.gitRef),
    ("agent", .ofString r.agent), ("status", JobStatus.queued.cell), ("enqueued_at", .ofString now.stored)]
  returning := Job.columns

/-- Queue a job. The same reference may be queued any number of times. -/
def enqueue (c : Connection) (now : Timestamp) (r : JobRequest) : Outcome Job :=
  match c.insert (queueing now r) with
  | .error f => .refused c f
  | .ok (none, db) => .refused (c.on db) .noRow
  | .ok (some record, db) =>
    match Job.ofRecord record with
    | .error f => .refused (c.on db) f
    | .ok job =>
      ⟨.ok job, c.on db, [⟨.debug, "Enqueued job " ++ toString job.id ++ " for " ++ r.gitRef ++ " (" ++ r.agent ++ ")"⟩]⟩

/-- The least of some cells; null if there is none. -/
def least : List Cell → Cell
  | [] => .null
  | cell :: cells => cells.foldl (fun a b => if a.le b then a else b) cell

/-- The number of the oldest job of a status, as it is stored; null if there is none. -/
def oldest (db : Database) (status : JobStatus) : Cell :=
  match db.table? "review_jobs" with
  | none => .null
  | some t => match t.layout.column? "id" with
    | none => .null
    | some key => least ((t.rows.filter (·.hasAll t.layout [("status", status.cell)])).map (·.get key))

/-- The statement that hands the oldest queued job to a worker. -/
def claiming (db : Database) (now : Timestamp) (worker : String) : Change where
  table := "review_jobs"
  cells := [("status", JobStatus.running.cell), ("worker_id", .ofString worker), ("started_at", .ofString now.stored)]
  having := [("id", oldest db .queued), ("status", JobStatus.queued.cell)]
  returning := Job.columns

/-- Hand the oldest queued job to a worker, if there is one. The job is claimed even if its row cannot be read. -/
def claim (c : Connection) (now : Timestamp) (worker : String) : Outcome (Option Job) :=
  match c.change (claiming c.database now worker) with
  | .error f => .refused c f
  | .ok ([], db) => ⟨.ok none, c.on db, []⟩
  | .ok (record :: _, db) =>
    match Job.ofRecord record with
    | .error f => .refused (c.on db) f
    | .ok job =>
      ⟨.ok (some job), c.on db,
        [⟨.debug, "Worker " ++ worker ++ " claimed job " ++ toString job.id ++ " (" ++ job.gitRef ++ ")"⟩]⟩

/-! ## Resolving -/

/-- The statement that takes a running job to its end. -/
def finishing (now : Timestamp) (id : Int) (target : JobStatus) (error : Option String) : Change where
  table := "review_jobs"
  cells := [("status", target.cell), ("finished_at", .ofString now.stored), ("error", .ofOption .ofString error)]
  having := [("id", .int id), ("status", JobStatus.running.cell)]

/-- Why a job that was to be finished was not the one running job of its number. -/
def refusal (c : Connection) (id : Int) (target : JobStatus) : StoreError :=
  match c.first ⟨"review_jobs", ["status"], [("id", .int id)]⟩ (·.status 0) with
  | .error f => .ofFault f
  | .ok none => .jobNotFound id
  | .ok (some status) => .invalidTransition id status target

/-- What comes of the change of a job that was to be finished: it is done if that was one row, and otherwise is told why not. -/
def finished (c : Connection) (id : Int) (target : JobStatus) : Except Fault (List Record × Database) → Outcome Unit
  | .error f => .refused c f
  | .ok (rows, db) =>
    if rows.length = 1 then ⟨.ok (), c.on db, []⟩ else ⟨.error ((c.on db).refusal id target), c.on db, []⟩

/-- Take a running job to its end, or say why it cannot go there. -/
def finish (c : Connection) (now : Timestamp) (id : Int) (target : JobStatus) (error : Option String) : Outcome Unit :=
  c.finished id target (c.change (finishing now id target error))

/-- The statement that stores the review of a job. -/
def reviewing (now : Timestamp) (id : Int) (r : ReviewText) : Insertion where
  table := "reviews"
  cells := [("job_id", .int id), ("agent", .ofString r.agent), ("prompt", .ofString r.prompt), ("output", .ofString r.output),
    ("created_at", .ofString now.stored)]
  returning := Review.columns

/-- Store a review within a transaction and read it back. -/
def storeReview (c : Connection) (now : Timestamp) (id : Int) (r : ReviewText) : Except Fault (Review × Database) := do
  match ← c.insertWithin (reviewing now id r) with
  | (none, _) => .error .noRow
  | (some record, db) => return (← Review.ofRecord record, db)

/-- The count of references that a completion put off and that lead nowhere at its end: those of the job, then those of the review,
which is stored in the database `done`. -/
def completionOwing (c : Connection) (now : Timestamp) (id : Int) (r : ReviewText) (done : Database) : Int :=
  (reviewing now id r).owing c.guard done ((finishing now id .done none).owing c.guard c.database 0)

/-- Finish a running job and store its review, in one transaction. Unless all succeeds the database stays as it is. -/
def complete (c : Connection) (now : Timestamp) (id : Int) (r : ReviewText) : Outcome Review :=
  if c.locked then .refused c .locked
  else
    let done := c.finished id .done (c.changeWithin (finishing now id .done none))
    match done.answer with
    | .error e => ⟨.error e, c, []⟩
    | .ok () =>
      match done.connection.storeReview now id r with
      | .error f => .refused c f
      | .ok (review, db) =>
        if 0 < c.completionOwing now id r done.connection.database then .refused c .dangling
        else ⟨.ok review, c.on db, [⟨.debug, "Job " ++ toString id ++ " done by " ++ r.agent⟩]⟩

/-- Mark a running job as failed. -/
def fail (c : Connection) (now : Timestamp) (id : Int) (error : String) : Outcome Unit :=
  let failed := c.finish now id .failed (some error)
  match failed.answer with
  | .error _ => failed
  | .ok () => { failed with log := [⟨.debug, "Job " ++ toString id ++ " failed: " ++ error⟩] }

/-- The statement that puts running jobs back. -/
def requeueing : Change where
  table := "review_jobs"
  cells := [("status", JobStatus.queued.cell), ("worker_id", .null), ("started_at", .null)]
  having := [("status", JobStatus.running.cell)]

/-- Put every running job back into the queue. Meant for a start after a crash. -/
def resetStale (c : Connection) : Outcome Nat :=
  match c.change requeueing with
  | .error f => .refused c f
  | .ok (rows, db) =>
    ⟨.ok rows.length, c.on db,
      if rows.length = 0 then [] else [⟨.info, "Re-queued " ++ toString rows.length ++ " stale running job(s)"⟩]⟩

/-! ## Looking at jobs -/

/-- The different cells of some records' first column, least first, each as a record. -/
def groups : List Record → List Record
  | [] => []
  | r :: rest => place r (groups rest)
where
  place (r : Record) : List Record → List Record
    | [] => [r]
    | x :: xs =>
      if (r.at_ 0).2.equal (x.at_ 0).2 then x :: xs
      else if (r.at_ 0).2.le (x.at_ 0).2 then r :: x :: xs
      else x :: place r xs

/-- Count the jobs of each status. A stored status that is none makes the count fail. -/
def counts (c : Connection) : Except StoreError JobCounts := liftFault do
  let records ← (Query.mk "review_jobs" ["status"] []).run c.database
  (groups records).foldlM (fun counts r => do
    return counts.set (← r.status 0) (records.filter fun x => (x.at_ 0).2.equal (r.at_ 0).2).length) {}

/-- Find a job by its number. -/
def findJob (c : Connection) (id : Int) : Except StoreError (Option Job) :=
  liftFault (c.first ⟨"review_jobs", Job.columns, [("id", .int id)]⟩ Job.ofRecord)

/-- The greatest number of jobs that one list can have. -/
def longestList : Nat := Int64.maxValue.toNatClampNeg

/-- The newest jobs, newest first, of all statuses or of one. -/
def listJobs (c : Connection) (status : Option JobStatus) (limit : Nat) : Except StoreError (List Job) := liftFault do
  let having := match status with
    | none => []
    | some s => [("status", s.cell)]
  let records ← (Query.mk "review_jobs" Job.columns having).run c.database
  let newestFirst := records.mergeSort fun a b => (b.at_ 0).2.le (a.at_ 0).2
  (newestFirst.take (min limit longestList)).mapM Job.ofRecord

end Connection
end ReviewQueue
