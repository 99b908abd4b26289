import ReviewQueue.JobStatus
import ReviewQueue.Store.Statement

/-!
# The layouts of the store

The tables and indexes of the current version, and those of databases from before versions were recorded. A column without a
default is given by every statement that adds a row.
-/

namespace ReviewQueue

/-- The version of the current layout. -/
def currentVersion : Int := 2

namespace Column

/-- The key of a table. -/
def key (name : String) : Column := { name, kind := .key }

/-- A column of texts that may be null. -/
def text (name : String) : Column := { name, kind := .text }

/-- A column of texts. -/
def textRequired (name : String) : Column := { name, kind := .text, required := true }

/-- A column of texts of which no two are equal. -/
def textUnique (name : String) : Column := { name, kind := .text, required := true, unique := true }

/-- A column that refers to a table and may be null. -/
def link (name parent : String) : Column := { name, kind := .integer, parent := some parent }

/-- A column that refers to a table. -/
def linkRequired (name parent : String) : Column := { name, kind := .integer, required := true, parent := some parent }

end Column

namespace Layout

/-- Versions recorded. -/
def schemaVersion : Layout where
  name := "schema_version"
  columns := [.key "version"]

/-- Repositories. -/
def repos : Layout where
  name := "repos"
  columns := [.key "id", .textUnique "root_path", .textRequired "name", .textRequired "created_at"]

/-- Commits. -/
def commits : Layout where
  name := "commits"
  columns := [.key "id", .linkRequired "repo_id" "repos", .textUnique "sha", .textRequired "author",
    .textRequired "subject", .textRequired "timestamp", .textRequired "created_at"]

/-- Jobs, in a table of the given name. -/
def jobsNamed (name : String) (h : IsLowerName name := by decide) : Layout where
  name := name
  columns := [.key "id", .linkRequired "repo_id" "repos", .link "commit_id" "commits", .textRequired "git_ref",
    { Column.textRequired "agent" with default := .ofString "codex" },
    { Column.textRequired "status" with
      default := .ofString "queued", among := JobStatus.all.map JobStatus.word },
    .textRequired "enqueued_at", .text "started_at", .text "finished_at", .text "worker_id", .text "error"]
  spelled := h

theorem jobs_isLower : IsLowerName "review_jobs" := by decide

/-- Jobs. -/
def jobs : Layout := jobsNamed "review_jobs" jobs_isLower

/-- Reviews. -/
def reviews : Layout where
  name := "reviews"
  columns := [.key "id", { Column.linkRequired "job_id" "review_jobs" with unique := true }, .textRequired "agent",
    .textRequired "prompt", .textRequired "output", .textRequired "created_at"]

/-- Responses. -/
def responses : Layout where
  name := "responses"
  columns := [.key "id", .linkRequired "commit_id" "commits", .textRequired "responder", .textRequired "response",
    .textRequired "created_at"]

/-- The tables of the current version, in the order in which they are made. -/
def current : List Layout := [schemaVersion, repos, commits, jobs, reviews, responses]

/-- Jobs as they were before versions were recorded: the reference is called `commit_sha`, the commit is always known, and any
word may be a status. -/
def oldJobs : Layout where
  name := "review_jobs"
  columns := [.key "id", .linkRequired "repo_id" "repos", .linkRequired "commit_id" "commits", .textRequired "commit_sha",
    { Column.textRequired "agent" with default := .ofString "codex" },
    { Column.textRequired "status" with default := .ofString "queued" },
    .textRequired "enqueued_at", .text "started_at", .text "finished_at", .text "worker_id", .text "error"]

/-- The tables from before versions were recorded. -/
def old : List Layout := [repos, commits, oldJobs, reviews, responses]

end Layout

/-- The indexes of the current version. -/
def Index.current : List Index := [
  ⟨"idx_review_jobs_status", "review_jobs", "status"⟩,
  ⟨"idx_review_jobs_repo", "review_jobs", "repo_id"⟩,
  ⟨"idx_review_jobs_git_ref", "review_jobs", "git_ref"⟩,
  ⟨"idx_commits_sha", "commits", "sha"⟩]

namespace Database

/-- The database with the tables and indexes of the current version; those that are there stay as they are. -/
def withCurrent (db : Database) : Except Fault Database :=
  Index.current.foldlM createIndex (Layout.current.foldl create db)

/-- The database with one version recorded in place of those that were. -/
def recordVersion (db : Database) (version : Int) : Except Fault Database := do
  let everything : Removal := ⟨"schema_version", []⟩
  let (_, db) ← everything.run { references := false } db
  let row : Insertion := { table := "schema_version", cells := [("version", .int version)] }
  match row.faults { references := false } db with
  | f :: _ => .error f
  | [] => return (← row.run { references := false } db).2

/-- The database as it is installed where there is none. -/
def install (db : Database) : Except Fault Database := do
  (← db.withCurrent).recordVersion currentVersion

/-- The cell of the greatest version recorded, null if there is none. -/
def greatestVersion (t : Table) (c : Column) : Cell := (t.cells c).foldl (fun a b => if a.le b then b else a) .null

/-- The version that is recorded, 0 if none is. The table of versions counts only if it is listed under its name. -/
def recordedVersion (db : Database) : Except Fault Int :=
  match db.listed? "schema_version" with
  | none => .ok 0
  | some t => match t.layout.column? "version" with
    | none => .error (.noColumn "version")
    | some c => match greatestVersion t c with
      | .null => .ok 0
      | .int version => .ok version
      | cell => .error (.badType cell.typeName 0 "MAX(version)")

/-- The database from before versions were recorded, without rows. -/
def old : Database := ⟨Layout.old.map .empty, []⟩

/-- The current database, without rows but for its version. -/
def current : Database where
  tables := Layout.current.map fun l =>
    if h : l = Layout.schemaVersion then ⟨l, [⟨currentVersion, []⟩], List.pairwise_singleton .., by subst h; decide⟩ else .empty l
  indexes := Index.current

end Database
end ReviewQueue
