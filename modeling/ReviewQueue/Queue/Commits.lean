import ReviewQueue.Store.Connection
import ReviewQueue.Time.Rfc3339

/-!
# Commits of the queue

A commit is stored once for each hash; the row that is there wins, whichever repository it belongs to. Storing is three statements
as for repositories.
-/

namespace ReviewQueue

/-- What is known of a commit that is to be stored. -/
structure CommitInfo where
  repoId : Int
  sha : String
  author : String
  subject : String
  timestamp : Timestamp
  deriving DecidableEq, Repr

namespace Connection

/-- The commit of a hash. -/
def commitOf (c : Connection) (sha : String) : Except Fault (Option Commit) :=
  c.first ⟨"commits", Commit.columns, [("sha", .ofString sha)]⟩ Commit.ofRecord

/-- The statement that stores a commit. -/
def storing (now : Timestamp) (info : CommitInfo) : Insertion where
  table := "commits"
  cells := [("repo_id", .int info.repoId), ("sha", .ofString info.sha), ("author", .ofString info.author),
    ("subject", .ofString info.subject), ("timestamp", .ofString info.timestamp.stored),
    ("created_at", .ofString now.stored)]
  unlessIn := some "sha"

/-- The last step of storing: the row is there, whoever added it. -/
def storedCommit (c : Connection) (sha : String) : Except Fault Commit := do
  match ← c.commitOf sha with
  | none => .error .noRow
  | some commit => .ok commit

/-- The commit of a hash, stored if need be. -/
def storeCommit (c : Connection) (now : Timestamp) (info : CommitInfo) : Outcome Commit :=
  match c.commitOf info.sha with
  | .error f => .refused c f
  | .ok (some commit) => ⟨.ok commit, c, []⟩
  | .ok none =>
    match c.insert (storing now info) with
    | .error f => .refused c f
    | .ok (_, db) => ⟨liftFault ((c.on db).storedCommit info.sha), c.on db, []⟩

/-- Find a commit by its hash. -/
def findCommitBySha (c : Connection) (sha : String) : Except StoreError (Option Commit) := liftFault (c.commitOf sha)

/-- Find a commit by its number. -/
def findCommit (c : Connection) (id : Int) : Except StoreError (Option Commit) :=
  liftFault (c.first ⟨"commits", Commit.columns, [("id", .int id)]⟩ Commit.ofRecord)

end Connection
end ReviewQueue
