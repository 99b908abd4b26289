import ReviewQueue.Entity.Basic
import ReviewQueue.Store.Statement
import ReviewQueue.Time.Reading

/-!
# Reading answers

An answer of the store is a record of cells, and an entity is read from it column by column; the first column that cannot be read
is the one reported, by its index. An integer is read from an integer and a text from a text, nothing else.
-/

namespace ReviewQueue

namespace Record

/-- The cell at an index, with the name of its column. -/
def at_ (r : Record) (i : Nat) : String × Cell := (r[i]?).getD ("", .null)

/-- The fault that a column is not read from the type of its cell. -/
def badType (r : Record) (i : Nat) : Fault := .badType (r.at_ i).2.typeName i (r.at_ i).1

/-- The integer at an index. -/
def int (r : Record) (i : Nat) : Except Fault Int :=
  match (r.at_ i).2 with
  | .int n => .ok n
  | _ => .error (r.badType i)

/-- The text at an index, as bytes and as a string. -/
def textAndBytes (r : Record) (i : Nat) : Except Fault (Bytes × String) :=
  match (r.at_ i).2 with
  | .text bytes => match Utf8.decode bytes with
    | .ok s => .ok (bytes, s)
    | .error b => .error (.unreadable i (.notUtf8 b))
  | _ => .error (r.badType i)

/-- The text at an index. -/
def text (r : Record) (i : Nat) : Except Fault String := (r.textAndBytes i).map (·.2)

/-- The timestamp at an index. -/
def timestamp (r : Record) (i : Nat) : Except Fault Timestamp := do
  let (bytes, s) ← r.textAndBytes i
  match Timestamp.ofStored? bytes s.toList with
  | some t => .ok t
  | none => .error (.unreadable i .notTimestamp)

/-- The status at an index. -/
def status (r : Record) (i : Nat) : Except Fault JobStatus := do
  let s ← r.text i
  match JobStatus.ofWord? s with
  | some status => .ok status
  | none => .error (.unreadable i (.notStatus s))

/-- What `read` finds at an index, if there is no null. -/
def nullable {α : Type} (read : Record → Nat → Except Fault α) (r : Record) (i : Nat) : Except Fault (Option α) :=
  if (r.at_ i).2 = .null then .ok none else (read r i).map some

end Record

namespace Repo

/-- The columns of a repository. -/
def columns : List String := ["id", "root_path", "name", "created_at"]

/-- Read a repository from its columns. -/
def ofRecord (r : Record) : Except Fault Repo := do
  return { id := ← r.int 0, rootPath := ← r.text 1, name := ← r.text 2, createdAt := ← r.timestamp 3 }

end Repo

namespace Commit

/-- The columns of a commit. -/
def columns : List String := ["id", "repo_id", "sha", "author", "subject", "timestamp", "created_at"]

/-- Read a commit from its columns. -/
def ofRecord (r : Record) : Except Fault Commit := do
  return {
    id := ← r.int 0, repoId := ← r.int 1, sha := ← r.text 2, author := ← r.text 3, subject := ← r.text 4,
    timestamp := ← r.timestamp 5, createdAt := ← r.timestamp 6 }

end Commit

namespace Job

/-- The columns of a job. -/
def columns : List String :=
  ["id", "repo_id", "commit_id", "git_ref", "agent", "status", "enqueued_at", "started_at", "finished_at", "worker_id", "error"]

/-- Read a job from its columns. -/
def ofRecord (r : Record) : Except Fault Job := do
  return {
    id := ← r.int 0, repoId := ← r.int 1, commitId := ← r.nullable Record.int 2, gitRef := ← r.text 3, agent := ← r.text 4,
    status := ← r.status 5, enqueuedAt := ← r.timestamp 6, startedAt := ← r.nullable Record.timestamp 7,
    finishedAt := ← r.nullable Record.timestamp 8, workerId := ← r.nullable Record.text 9,
    error := ← r.nullable Record.text 10 }

end Job

namespace Review

/-- The columns of a review. -/
def columns : List String := ["id", "job_id", "agent", "prompt", "output", "created_at"]

/-- Read a review from its columns. -/
def ofRecord (r : Record) : Except Fault Review := do
  return {
    id := ← r.int 0, jobId := ← r.int 1, agent := ← r.text 2, prompt := ← r.text 3, output := ← r.text 4,
    createdAt := ← r.timestamp 5 }

end Review

namespace Response

/-- The columns of a response. -/
def columns : List String := ["id", "commit_id", "responder", "response", "created_at"]

/-- Read a response from its columns. -/
def ofRecord (r : Record) : Except Fault Response := do
  return {
    id := ← r.int 0, commitId := ← r.int 1, responder := ← r.text 2, response := ← r.text 3, createdAt := ← r.timestamp 4 }

end Response
end ReviewQueue
