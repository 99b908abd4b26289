/-!
# The status of a job

A job is queued, then running, then done or failed. A status is written as one lower-case word, and a word that is none of the
four is no status.
-/

namespace ReviewQueue

/-- Where a job is in its life. -/
inductive JobStatus where
  | queued | running | done | failed
  deriving DecidableEq, Repr, Inhabited

namespace JobStatus

/-- Every status, in the order of a job's life. -/
def all : List JobStatus := [queued, running, done, failed]

/-- The word for a status. -/
def word : JobStatus → String
  | queued => "queued"
  | running => "running"
  | done => "done"
  | failed => "failed"

/-- The status a word stands for, if any. -/
def ofWord? (text : String) : Option JobStatus := all.find? (fun s => s.word = text)

/-- Whether a job of this status never changes again. -/
def isTerminal : JobStatus → Bool
  | done | failed => true
  | queued | running => false

/-- What is said of a text that is no status. -/
def unknown (text : String) : String := s!"unknown job status: {text}"

end JobStatus

/-- A number of jobs for each status. -/
structure JobCounts where
  queued : Nat := 0
  running : Nat := 0
  done : Nat := 0
  failed : Nat := 0
  deriving DecidableEq, Repr, Inhabited

namespace JobCounts

/-- The number of jobs of all statuses. -/
def total (c : JobCounts) : Nat := c.queued + c.running + c.done + c.failed

/-- The number of jobs of one status. -/
def get (c : JobCounts) : JobStatus → Nat
  | .queued => c.queued
  | .running => c.running
  | .done => c.done
  | .failed => c.failed

/-- The counts with the number of one status replaced. -/
def set (c : JobCounts) (status : JobStatus) (n : Nat) : JobCounts :=
  match status with
  | .queued => { c with queued := n }
  | .running => { c with running := n }
  | .done => { c with done := n }
  | .failed => { c with failed := n }

end JobCounts
end ReviewQueue
