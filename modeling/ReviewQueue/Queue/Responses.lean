import ReviewQueue.Store.Connection
import ReviewQueue.Time.Rfc3339

/-!
# Responses

Responses to a commit are added and listed, oldest first; none is ever changed or removed.
-/

namespace ReviewQueue

/-- A response that is to be added. -/
structure Reply where
  commitId : Int
  responder : String
  response : String
  deriving DecidableEq, Repr

namespace Connection

/-- The statement that adds a response. -/
def responding (now : Timestamp) (r : Reply) : Insertion where
  table := "responses"
  cells := [("commit_id", .int r.commitId), ("responder", .ofString r.responder), ("response", .ofString r.response),
    ("created_at", .ofString now.stored)]
  returning := Response.columns

/-- Add a response to a commit. -/
def addResponse (c : Connection) (now : Timestamp) (r : Reply) : Outcome Response :=
  match c.insert (responding now r) with
  | .error f => .refused c f
  | .ok (none, db) => .refused (c.on db) .noRow
  | .ok (some record, db) => ⟨liftFault (Response.ofRecord record), c.on db, []⟩

/-- The responses to a commit, oldest first. -/
def listResponses (c : Connection) (commitId : Int) : Except StoreError (List Response) := liftFault do
  let records ← (Query.mk "responses" Response.columns [("commit_id", .int commitId)]).run c.database
  (records.mergeSort fun a b => (a.at_ 0).2.le (b.at_ 0).2).mapM Response.ofRecord

end Connection
end ReviewQueue
