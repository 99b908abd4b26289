import ReviewQueue.Files.Host

/-!
# Racing workers

Several workers open one database file and claim at the same time. Each claim is one statement and each completion one
transaction, so whatever the order, together they get the oldest jobs, each of them once; the order taken here is one after the
other.
-/

namespace ReviewQueue

/-- What racing workers got: the numbers of the jobs they claimed, and how many claims found nothing. -/
structure Claims where
  claimed : List Int := []
  inVain : Nat := 0
  deriving DecidableEq, Repr

namespace Host

/-- The name under which racing workers claim. -/
def racer : String := "racer"

/-- One claim through a handle; with `drain` the job is completed too. -/
def claimOnce (h : Host) (handle : Handle) (drain : Bool) (now : Timestamp) : Except StoreError (Option Int) × Host :=
  match h.perform racer handle now (.claim racer) with
  | (.error e, h, _) => (.error e, h)
  | (.ok (.job job), h, _) =>
    if drain then
      match h.perform racer handle now (.complete job.id ⟨racer, "p", job.gitRef⟩) with
      | (.error e, h, _) => (.error e, h)
      | (.ok _, h, _) => (.ok (some job.id), h)
    else (.ok (some job.id), h)
  | (.ok _, h, _) => (.ok none, h)

/-- Claims through a handle, one at each of some times. -/
def claimAll (h : Host) (handle : Handle) (drain : Bool) : List Timestamp → Claims → Except StoreError Claims × Host
  | [], claims => (.ok claims, h)
  | now :: times, claims =>
    match h.claimOnce handle drain now with
    | (.error e, h) => (.error e, h)
    | (.ok none, h) => claimAll h handle drain times { claims with inVain := claims.inVain + 1 }
    | (.ok (some id), h) => claimAll h handle drain times { claims with claimed := claims.claimed ++ [id] }

/-- The number of jobs that wait in a database. -/
def waiting (db : Database) : Nat :=
  match db.table? "review_jobs" with
  | none => 0
  | some t => (t.rows.filter (·.hasAll t.layout [("status", JobStatus.queued.cell)])).length

/-- Some workers race for the jobs of a file, each making one claim, or with `drain` claims until nothing is left. The clock gives
a time for each claim. -/
def race (h : Host) (path : Path) (workers : Nat) (drain : Bool) (clock : Nat → Timestamp) : Except StoreError Claims × Host :=
  match h.openAt racer path 5000 with
  | (.opened handle, opened, _) =>
    let jobs := match opened.connect handle with
      | .ok c => waiting c.database
      | .error _ => 0
    let attempts := if drain then jobs + workers else workers
    let (answer, raced) := opened.claimAll handle drain ((List.range attempts).map clock) {}
    (answer, { raced with handles := h.handles })
  | (.failed e, h, _) => (.error e, h)
  | (.aborted, h, _) => (.ok {}, h)

/-- Some workers open a file at the same time; the versions that they find. -/
def raceOpening (h : Host) (path : Path) : Nat → Except StoreError (List Int) × Host
  | 0 => (.ok [], h)
  | workers + 1 =>
    match h.openAt racer path 5000 with
    | (.opened handle, opened, _) =>
      match opened.connect handle with
      | .error f => (.error (.ofFault f), h)
      | .ok c =>
        match liftFault c.database.recordedVersion, raceOpening { opened with handles := h.handles } path workers with
        | .ok version, (.ok versions, h) => (.ok (version :: versions), h)
        | .error e, (_, h) => (.error e, h)
        | _, (.error e, h) => (.error e, h)
    | (.failed e, h, _) => (.error e, h)
    | (.aborted, h, _) => (.ok [], h)

end Host
end ReviewQueue
