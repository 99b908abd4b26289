import ReviewQueue.Store.Connection
import ReviewQueue.Store.Schema

/-!
# Migration

A database is brought to the current version in turns, each a transaction of its own: the version is read under the lock for
writing, and then either there is nothing left to do, or everything is installed, or one step forward is made. A turn that fails
leaves the database as it was, and each turn has to get the lock anew. References are not enforced meanwhile and are
afterwards, whatever the result.
-/

namespace ReviewQueue

/-- A step from one version to the next. -/
structure MigrationStep where
  source : Int
  description : String
  /-- What the step does to a database, and what it logs whether it succeeds or not. -/
  apply : Database → Except StoreError Database × List LogLine

namespace Migration

/-- Rules while a database is brought forward. -/
def guard : Guard := { references := false }

/-- Whether jobs name their reference `commit_sha`, in this spelling. Their table may be spelled in any way. -/
def isOld (db : Database) : Bool :=
  (db.table? "review_jobs").any fun t => t.layout.columns.any (·.name = "commit_sha")

/-- The version of a database. Jobs of the old kind mean version 1, whatever is recorded. -/
def detect (db : Database) : Except Fault Int := if isOld db then .ok 1 else db.recordedVersion

/-- The table in which jobs are written anew. -/
def scratch : String := "review_jobs_new"

theorem scratch_isLower : IsLowerName scratch := by decide

/-- The columns of old jobs, in the order of those of the new ones. -/
def oldColumns : List String :=
  ["id", "repo_id", "commit_id", "commit_sha", "agent", "status", "enqueued_at", "started_at", "finished_at", "worker_id", "error"]

/-- The statement that writes a job anew. -/
def renewal (old : Record) : Insertion where
  table := scratch
  cells := Job.columns.zip (old.map (·.2))

/-- The database with jobs written anew under their current layout. -/
def renewJobs (db : Database) : Except Fault Database := do
  let db := ((db.create Layout.schemaVersion).drop scratch).create (Layout.jobsNamed scratch scratch_isLower)
  let jobs ← (Query.mk "review_jobs" oldColumns []).run db
  let db ← jobs.foldlM (fun db old => do return (← (renewal old).run guard db).2) db
  return (db.drop "review_jobs").rename scratch "review_jobs" Layout.jobs_isLower

/-- From version 1 to version 2: jobs name their reference `git_ref`. Reviews of no job that were there before are kept; the step
fails if there are others after it. -/
def renameReference (db : Database) : Except StoreError Database × List LogLine :=
  match db.violations "reviews" with
  | .error f => (.error (.ofFault f), [])
  | .ok before =>
    let log := if before = [] then [] else
      [⟨.warn, "Legacy database already has " ++ toString before.length ++ " dangling review(s); keeping them"⟩]
    let result : Except StoreError Database := do
      let db ← liftFault ((renewJobs db).bind Database.withCurrent)
      let after ← liftFault (db.violations "reviews")
      match after.filter (!before.contains ·) with
      | [] => .ok db
      | new => .error (.danglingRows (", ".intercalate (new.map (·.message))))
    (result, log)

/-- The steps, by the version from which they start. -/
def steps : List MigrationStep :=
  [{ source := 1, description := "rename review_jobs.commit_sha to git_ref", apply := renameReference }]

/-- What a turn leads to if it does not fail. -/
inductive Turn where
  | again | finished
  deriving DecidableEq, Repr

/-- One turn. -/
def turn (c : Connection) : Outcome Turn :=
  if c.locked then .refused c .locked
  else match detect c.database with
    | .error f => .refused c f
    | .ok version =>
      if currentVersion ≤ version then
        ⟨.ok .finished, c, if version = currentVersion then [] else
          [⟨.warn, "Database schema version " ++ toString version ++ " is newer than supported version " ++
            toString currentVersion⟩]⟩
      else if version = 0 then
        match c.database.install with
        | .error f => ⟨.error (.migration 0 (.ofFault f)), c, []⟩
        | .ok db => ⟨.ok .finished, c.on db, [⟨.info, "Created schema version " ++ toString currentVersion⟩]⟩
      else
        match steps.find? (·.source = version) with
        | none => ⟨.error (.unknownVersion version), c, []⟩
        | some step =>
          match step.apply c.database with
          | (.error e, log) => ⟨.error (.migration version e), c, log⟩
          | (.ok db, log) =>
            match db.recordVersion (step.source + 1) with
            | .error f => ⟨.error (.migration version (.ofFault f)), c, log⟩
            | .ok db =>
              ⟨.ok .again, c.on db, log ++ [⟨.info, "Migrated schema " ++ toString step.source ++ " -> " ++
                toString (step.source + 1) ++ ": " ++ step.description⟩]⟩

/-- Turns until one finishes or fails, at most `n`. Between two of them another connection can take the lock or give it back:
`lock k` tells how the turn after `k` others finds it. -/
def turnsAmid (lock : Nat → Bool) : Nat → Connection → Outcome Unit
  | 0, c => ⟨.ok (), c, []⟩
  | n + 1, c =>
    let first := turn { c with locked := lock 0 }
    match first.answer with
    | .error e => ⟨.error e, first.connection, first.log⟩
    | .ok .finished => ⟨.ok (), first.connection, first.log⟩
    | .ok .again =>
      let rest := turnsAmid (fun k => lock (k + 1)) n first.connection
      { rest with log := first.log ++ rest.log }

/-- Turns that all find the lock as the connection shows it. -/
def turns (n : Nat) (c : Connection) : Outcome Unit := turnsAmid (fun _ => c.locked) n c

end Migration

/-- Bring a database to the current version: one turn for each step and one that finds nothing left to do, each finding the lock
as `lock` says. -/
def Connection.migrateAmid (lock : Nat → Bool) (c : Connection) : Outcome Unit :=
  let o := Migration.turnsAmid lock (Migration.steps.length + 1) { c with enforcing := false }
  { o with connection := { o.connection with enforcing := true } }

/-- Bring a database to the current version while nobody takes the lock or gives it back. -/
def Connection.migrate (c : Connection) : Outcome Unit := c.migrateAmid fun _ => c.locked

namespace Migration

/-- The fault of an installation that cannot write for another one: what is there already is no matter, and an index is looked at
before it is made. -/
def unwrittenInstall (f : Fault) (db : Database) : Fault :=
  if Layout.current.all fun l => (db.table? l.name).isSome then
    match Index.current.find? fun i => db.indexes.all (·.name ≠ i.name) with
    | none => f
    | some i => match db.createIndex i with
      | .error missing => missing
      | .ok _ => f
  else f

/-- The error of a step that cannot write for a fault, and what it logs: it fails before that only where its reviews do. -/
def unwrittenStep (f : Fault) (step : MigrationStep) (db : Database) : StoreError × List LogLine :=
  match db.violations "reviews" with
  | .error mismatch => (.ofFault mismatch, [])
  | .ok _ => (.ofFault f, (step.apply db).2)

end Migration

/-- Bring a database to the current version that cannot be written for some fault: there must be nothing to do. -/
def Connection.migrateUnwritten (c : Connection) (f : Fault) : Except StoreError Unit × List LogLine :=
  match Migration.detect c.database with
  | .error f => (.error (.ofFault f), [])
  | .ok version =>
    if currentVersion ≤ version then
      let o := { c with locked := false }.migrate
      (o.answer, o.log)
    else if version = 0 then (.error (.migration 0 (.ofFault (Migration.unwrittenInstall f c.database))), [])
    else
      match Migration.steps.find? (·.source = version) with
      | none => (.error (.unknownVersion version), [])
      | some step =>
        let (e, log) := Migration.unwrittenStep f step c.database
        (.error (.migration version e), log)

end ReviewQueue
