import ReviewQueue.Queue.Commits
import ReviewQueue.Queue.Jobs
import ReviewQueue.Queue.Repos
import ReviewQueue.Queue.Responses
import ReviewQueue.Queue.Reviews
import ReviewQueue.Store.Schema

/-!
# Operations

Everything that can be asked of a queue, as one type, with one type of answers. A run of the queue is a list of operations, each
with the time at which it is asked for.
-/

namespace ReviewQueue

/-- Something asked of a queue. -/
inductive Operation where
  | registerRepo (path : Path)
  | findRepoByPath (path : Path)
  | findRepo (id : Int)
  | storeCommit (info : CommitInfo)
  | findCommitBySha (sha : String)
  | findCommit (id : Int)
  | enqueue (request : JobRequest)
  | claim (worker : String)
  | complete (id : Int) (review : ReviewText)
  | fail (id : Int) (error : String)
  | resetStale
  | counts
  | findJob (id : Int)
  | listJobs (status : Option JobStatus) (limit : Nat)
  | findReviewBySha (sha : String)
  | findReviewByJob (job : Int)
  | addResponse (reply : Reply)
  | listResponses (commitId : Int)
  | version
  deriving DecidableEq, Repr

/-- What an operation answers. -/
inductive Answer where
  /-- It is done, and there is nothing to say. -/
  | done
  /-- There is nothing of the kind. -/
  | absent
  | repo (r : Repo)
  | commit (c : Commit)
  | job (j : Job)
  | review (r : Review)
  | response (r : Response)
  | jobs (js : List Job)
  | responses (rs : List Response)
  | counts (c : JobCounts)
  | number (n : Int)
  deriving DecidableEq, Repr

namespace Answer

/-- The answer of a lookup. -/
def ofOption {α : Type} (found : α → Answer) : Option α → Answer
  | none => absent
  | some a => found a

end Answer

namespace Connection

/-- The outcome of a lookup: nothing changes and nothing is logged. -/
def reading {α : Type} (c : Connection) (answer : Except StoreError α) : Outcome α := ⟨answer, c, []⟩

/-- Carry out an operation at a time. -/
def perform (c : Connection) (now : Timestamp) : Operation → Outcome Answer
  | .registerRepo path => (c.registerRepo now path).map .repo
  | .findRepoByPath path => (c.reading (c.findRepoByPath path)).map (.ofOption .repo)
  | .findRepo id => (c.reading (c.findRepo id)).map (.ofOption .repo)
  | .storeCommit info => (c.storeCommit now info).map .commit
  | .findCommitBySha sha => (c.reading (c.findCommitBySha sha)).map (.ofOption .commit)
  | .findCommit id => (c.reading (c.findCommit id)).map (.ofOption .commit)
  | .enqueue request => (c.enqueue now request).map .job
  | .claim worker => (c.claim now worker).map (.ofOption .job)
  | .complete id review => (c.complete now id review).map .review
  | .fail id error => (c.fail now id error).map fun _ => .done
  | .resetStale => c.resetStale.map fun (n : Nat) => .number (n : Int)
  | .counts => (c.reading c.counts).map .counts
  | .findJob id => (c.reading (c.findJob id)).map (.ofOption .job)
  | .listJobs status limit => (c.reading (c.listJobs status limit)).map .jobs
  | .findReviewBySha sha => (c.reading (c.findReviewBySha now sha)).map (.ofOption .review)
  | .findReviewByJob job => (c.reading (c.findReviewByJob job)).map (.ofOption .review)
  | .addResponse reply => (c.addResponse now reply).map .response
  | .listResponses commitId => (c.reading (c.listResponses commitId)).map .responses
  | .version => (c.reading (liftFault c.database.recordedVersion)).map .number

end Connection
end ReviewQueue
