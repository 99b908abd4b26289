import ReviewQueue.JobStatus
import ReviewQueue.Path
import ReviewQueue.Time.Timestamp

/-!
# Entities

What the queue keeps: repositories, their commits, the jobs that ask for a review, the reviews that finished jobs have, and the
responses to a commit. Every entity has a number of its own, given when it is stored.
-/

namespace ReviewQueue

/-- A repository, known by the root of its working tree. -/
structure Repo where
  id : Int
  rootPath : String
  /-- The name shown for the root path. -/
  name : String
  createdAt : Timestamp
  deriving DecidableEq, Repr

/-- A commit. Its hash names it in the whole store, not only in its repository. -/
structure Commit where
  id : Int
  repoId : Int
  sha : String
  author : String
  subject : String
  /-- When the author made it. -/
  timestamp : Timestamp
  createdAt : Timestamp
  deriving DecidableEq, Repr

/-- A request to review what a reference of a repository names. -/
structure Job where
  id : Int
  repoId : Int
  /-- The commit, if it was known when the job was queued. -/
  commitId : Option Int
  /-- The branch, tag or hash as it was given. -/
  gitRef : String
  /-- Who is to review. -/
  agent : String
  status : JobStatus
  enqueuedAt : Timestamp
  startedAt : Option Timestamp
  finishedAt : Option Timestamp
  workerId : Option String
  error : Option String
  deriving DecidableEq, Repr

/-- The outcome of a job that is done. -/
structure Review where
  id : Int
  jobId : Int
  agent : String
  prompt : String
  output : String
  createdAt : Timestamp
  deriving DecidableEq, Repr

/-- A reaction to a commit. -/
structure Response where
  id : Int
  commitId : Int
  responder : String
  response : String
  createdAt : Timestamp
  deriving DecidableEq, Repr

end ReviewQueue
