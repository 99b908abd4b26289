import ReviewQueue.Entity.Basic
import ReviewQueue.Json
import ReviewQueue.Settings.Toml
import ReviewQueue.Time.Reading
import ReviewQueue.Time.Rfc3339

/-!
# Entities as JSON

Each entity is written as an object with its fields in order and read back from an object or from a list of its fields. A field
that may be absent is written as null. Timestamps are texts, statuses are words.
-/

namespace ReviewQueue

open Json (required optional orDefault)

namespace Timestamp

/-- A timestamp as JSON. -/
def toJson (t : Timestamp) : Json := .text t.shown

/-- Read a timestamp. -/
def ofJson? (v : Json) : Option Timestamp := v.text?.bind fun s => ofEntity? s.toList

end Timestamp

namespace JobStatus

/-- A status as JSON. -/
def toJson (s : JobStatus) : Json := .text s.word

/-- Read a status: its word, or an object whose only field has that name and is null. -/
def ofJson? : Json → Option JobStatus
  | .text s => ofWord? s
  | .object [(s, .null)] => ofWord? s
  | _ => none

end JobStatus

namespace JobCounts

/-- Counts as JSON. -/
def toJson (c : JobCounts) : Json :=
  .object [("queued", .int c.queued), ("running", .int c.running), ("done", .int c.done), ("failed", .int c.failed)]

/-- Read counts. -/
def ofJson? (v : Json) : Option JobCounts := do
  let [queued, running, done, failed] ← v.fields? ["queued", "running", "done", "failed"] | none
  return {
    queued := ← required Json.nat64? queued
    running := ← required Json.nat64? running
    done := ← required Json.nat64? done
    failed := ← required Json.nat64? failed }

end JobCounts

namespace Repo

/-- A repository as JSON. -/
def toJson (r : Repo) : Json :=
  .object [("id", .int r.id), ("root_path", .text r.rootPath), ("name", .text r.name), ("created_at", r.createdAt.toJson)]

/-- Read a repository. -/
def ofJson? (v : Json) : Option Repo := do
  let [id, rootPath, name, createdAt] ← v.fields? ["id", "root_path", "name", "created_at"] | none
  return {
    id := ← required Json.int64? id
    rootPath := ← required Json.text? rootPath
    name := ← required Json.text? name
    createdAt := ← required Timestamp.ofJson? createdAt }

end Repo

namespace Commit

/-- A commit as JSON. -/
def toJson (c : Commit) : Json :=
  .object [("id", .int c.id), ("repo_id", .int c.repoId), ("sha", .text c.sha), ("author", .text c.author),
    ("subject", .text c.subject), ("timestamp", c.timestamp.toJson), ("created_at", c.createdAt.toJson)]

/-- Read a commit. -/
def ofJson? (v : Json) : Option Commit := do
  let [id, repoId, sha, author, subject, timestamp, createdAt] ←
    v.fields? ["id", "repo_id", "sha", "author", "subject", "timestamp", "created_at"] | none
  return {
    id := ← required Json.int64? id
    repoId := ← required Json.int64? repoId
    sha := ← required Json.text? sha
    author := ← required Json.text? author
    subject := ← required Json.text? subject
    timestamp := ← required Timestamp.ofJson? timestamp
    createdAt := ← required Timestamp.ofJson? createdAt }

end Commit

namespace Job

/-- A job as JSON. -/
def toJson (j : Job) : Json :=
  .object [("id", .int j.id), ("repo_id", .int j.repoId), ("commit_id", .ofOption .int j.commitId),
    ("git_ref", .text j.gitRef), ("agent", .text j.agent), ("status", j.status.toJson),
    ("enqueued_at", j.enqueuedAt.toJson), ("started_at", .ofOption Timestamp.toJson j.startedAt),
    ("finished_at", .ofOption Timestamp.toJson j.finishedAt), ("worker_id", .ofOption .text j.workerId),
    ("error", .ofOption .text j.error)]

/-- Read a job. -/
def ofJson? (v : Json) : Option Job := do
  let [id, repoId, commitId, gitRef, agent, status, enqueuedAt, startedAt, finishedAt, workerId, error] ←
    v.fields? ["id", "repo_id", "commit_id", "git_ref", "agent", "status", "enqueued_at", "started_at", "finished_at",
      "worker_id", "error"] | none
  return {
    id := ← required Json.int64? id
    repoId := ← required Json.int64? repoId
    commitId := ← optional Json.int64? commitId
    gitRef := ← required Json.text? gitRef
    agent := ← required Json.text? agent
    status := ← required JobStatus.ofJson? status
    enqueuedAt := ← required Timestamp.ofJson? enqueuedAt
    startedAt := ← optional Timestamp.ofJson? startedAt
    finishedAt := ← optional Timestamp.ofJson? finishedAt
    workerId := ← optional Json.text? workerId
    error := ← optional Json.text? error }

end Job

namespace Review

/-- A review as JSON. -/
def toJson (r : Review) : Json :=
  .object [("id", .int r.id), ("job_id", .int r.jobId), ("agent", .text r.agent), ("prompt", .text r.prompt),
    ("output", .text r.output), ("created_at", r.createdAt.toJson)]

/-- Read a review. -/
def ofJson? (v : Json) : Option Review := do
  let [id, jobId, agent, prompt, output, createdAt] ←
    v.fields? ["id", "job_id", "agent", "prompt", "output", "created_at"] | none
  return {
    id := ← required Json.int64? id
    jobId := ← required Json.int64? jobId
    agent := ← required Json.text? agent
    prompt := ← required Json.text? prompt
    output := ← required Json.text? output
    createdAt := ← required Timestamp.ofJson? createdAt }

end Review

namespace Response

/-- A response as JSON. -/
def toJson (r : Response) : Json :=
  .object [("id", .int r.id), ("commit_id", .int r.commitId), ("responder", .text r.responder),
    ("response", .text r.response), ("created_at", r.createdAt.toJson)]

/-- Read a response. -/
def ofJson? (v : Json) : Option Response := do
  let [id, commitId, responder, response, createdAt] ←
    v.fields? ["id", "commit_id", "responder", "response", "created_at"] | none
  return {
    id := ← required Json.int64? id
    commitId := ← required Json.int64? commitId
    responder := ← required Json.text? responder
    response := ← required Json.text? response
    createdAt := ← required Timestamp.ofJson? createdAt }

end Response

namespace Settings

/-- Settings as JSON. A path that is no text has no place there. -/
def toJson? (s : Settings) : Option Json := do
  let dbPath ← match s.dbPath with
    | none => some .null
    | some path => path.toText?.map .text
  return .object [("db_path", dbPath), ("busy_timeout_ms", .int s.busyTimeoutMs)]

/-- Read settings; what is missing has its default. -/
def ofJson? (v : Json) : Option Settings := do
  let [dbPath, busyTimeoutMs] ← v.fieldsOrDefault? ["db_path", "busy_timeout_ms"] | none
  return {
    dbPath := (← optional Json.text? dbPath).map Path.ofString
    busyTimeoutMs := ← orDefault 5000 Json.nat64? busyTimeoutMs }

end Settings
end ReviewQueue
