import ReviewQueue.Store.Connection
import ReviewQueue.Time.Rfc3339

/-!
# Repositories of the queue

A repository is registered once for each root path, under the text that the path is shown as. Registering is three statements:
look the path up, add a row unless another connection was faster, look it up again.
-/

namespace ReviewQueue.Connection

/-- The repository at a path, given as it is shown. -/
def repoAt (c : Connection) (root : String) : Except Fault (Option Repo) :=
  c.first ⟨"repos", Repo.columns, [("root_path", .ofString root)]⟩ Repo.ofRecord

/-- The statement that registers a path. -/
def registration (now : Timestamp) (path : Path) : Insertion where
  table := "repos"
  cells := [("root_path", .ofString path.display), ("name", .ofString path.displayName), ("created_at", .ofString now.stored)]
  unlessIn := some "root_path"

/-- The last step of registering: the row is there, whoever added it. -/
def registeredRepo (c : Connection) (root : String) : Except Fault Repo := do
  match ← c.repoAt root with
  | none => .error .noRow
  | some repo => .ok repo

/-- The repository at a path, registered if need be. -/
def registerRepo (c : Connection) (now : Timestamp) (path : Path) : Outcome Repo :=
  match c.repoAt path.display with
  | .error f => .refused c f
  | .ok (some repo) => ⟨.ok repo, c, []⟩
  | .ok none =>
    match c.insert (registration now path) with
    | .error f => .refused c f
    | .ok (added, db) =>
      ⟨liftFault ((c.on db).registeredRepo path.display), c.on db,
        if added.isSome then [⟨.debug, "Registered repo " ++ path.displayName ++ " at " ++ path.display⟩] else []⟩

/-- Find the repository at a path. -/
def findRepoByPath (c : Connection) (path : Path) : Except StoreError (Option Repo) := liftFault (c.repoAt path.display)

/-- Find a repository by its number. -/
def findRepo (c : Connection) (id : Int) : Except StoreError (Option Repo) :=
  liftFault (c.first ⟨"repos", Repo.columns, [("id", .int id)]⟩ Repo.ofRecord)

end ReviewQueue.Connection
